import CryptolEdit.Machine.Files

/-!
What all programs on a machine share: its files, the pipes between them, and signals on their way.

A channel is one end of something that can be read or written. Programs that share a channel share
the place in it: what one of them has read, the others do not read again. Programs that run side by
side are run one after the other here, so what they write to a pipe carries its time, and a pipe
holds it in the order of time. Times are in microseconds.
-/

namespace CryptolEdit.Machine

/-- Something that has been written at once. -/
structure Chunk where
  time : Nat
  text : Text

/-- What has been written to a pipe and not read yet, the earliest first. -/
structure Pipe where
  chunks : Array Chunk := #[]
  /-- When its last writer has ended, as far as that is known. -/
  closed : Nat := 0

/-- A signal on its way to a process. -/
structure Sending where
  target : Nat
  signal : Nat
  time : Nat

namespace Pipe

/-- Puts a chunk behind all that are not later. -/
def insert (p : Pipe) (c : Chunk) : Pipe :=
  let isEarlier (d : Chunk) : Bool := d.time ≤ c.time
  if p.chunks.back?.all isEarlier then { p with chunks := p.chunks.push c }
  else
    let before := p.chunks.takeWhile isEarlier
    { p with chunks := before.push c ++ p.chunks.extract before.size p.chunks.size }

/-- The text of chunks one after the other. -/
def text (cs : List Chunk) : Text :=
  cs.foldr (fun c t => if t.isEmpty then c.text else c.text ++ t) []

/-- Chunks without their first characters. -/
def dropped : Nat → List Chunk → List Chunk
  | _, [] => []
  | 0, cs => cs
  | n, c :: cs =>
    match c.text.drop n with
    | [] => dropped (n - c.text.length) cs
    | t => { c with text := t } :: cs

/-- When the first characters of chunks are there. -/
def arrival : Nat → List Chunk → Nat
  | _, [] => 0
  | n, c :: cs =>
    if 0 < n ∧ c.text.drop (n - 1) = [] then max c.time (arrival (n - c.text.length) cs)
    else c.time

/-- When all there will be is there. -/
def finish (p : Pipe) : Nat := p.chunks.foldl (fun t c => max t c.time) p.closed

end Pipe

/-- Where a process reads from or writes to. -/
inductive Channel where
  | device (d : Device)
  | pipe (number : Nat)
deriving DecidableEq, Repr

/-- What processes share. -/
structure World where
  files : Files
  pipes : Array Pipe := #[]
  nextPid : Nat := 4000
  /-- Signals that have not been received. -/
  sent : List Sending := []

namespace World

/-- How much is read of what never ends. -/
def endless : Nat := 65536

/-- A new pipe with some content. -/
def pipe (w : World) (content : Text) : Channel × World :=
  let chunks := if content.isEmpty then #[] else #[⟨0, content⟩]
  (.pipe w.pipes.size, { w with pipes := w.pipes.push ⟨chunks, 0⟩ })

/-- Writes to a channel, and says whether it has taken the text. -/
def write (w : World) (time : Nat) (c : Channel) (t : Text) : Bool × World :=
  match c with
  | .device .full => (t.isEmpty, w)
  | .device _ => (true, w)
  | .pipe n =>
    (true, if t.isEmpty then w else { w with pipes := w.pipes.modify n (·.insert ⟨time, t⟩) })

/-- What is still to be read from a channel. -/
def unread (w : World) : Channel → Text
  | .device .null => []
  | .device _ => List.replicate endless '\x00'
  | .pipe n => (w.pipes[n]?.map fun p => Pipe.text p.chunks.toList).getD []

/-- Goes past some characters of a channel. -/
def consume (w : World) (c : Channel) (count : Nat) : World :=
  match c with
  | .device _ => w
  | .pipe n =>
    { w with pipes := w.pipes.modify n fun p =>
      { p with chunks := (Pipe.dropped count p.chunks.toList).toArray } }

/-- When the first characters of a channel are there. -/
def arrival (w : World) (c : Channel) (count : Nat) : Nat :=
  match c with
  | .device _ => 0
  | .pipe n => (w.pipes[n]?.map fun p => Pipe.arrival count p.chunks.toList).getD 0

/-- When a channel has come to its end. -/
def finish (w : World) : Channel → Nat
  | .device _ => 0
  | .pipe n => (w.pipes[n]?.map Pipe.finish).getD 0

/-- Notes that a writer of a channel has ended. -/
def close (w : World) (c : Channel) (time : Nat) : World :=
  match c with
  | .device _ => w
  | .pipe n => { w with pipes := w.pipes.modify n fun p => { p with closed := max time p.closed } }

/-- Reads all there is. -/
def readAll (w : World) (c : Channel) : Text × World :=
  let t := w.unread c
  (t, w.consume c t.length)

/-- Opens the file that a path leads to. Only devices can be read and written. -/
def openPath (w : World) (here : Place) (path : Text) : Except Trouble Channel := do
  match ← w.files.look here path with
  | .device d => return .device d
  | _ => throw .denied

end World

end CryptolEdit.Machine

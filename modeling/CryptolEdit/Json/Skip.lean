import CryptolEdit.Json.Value

/-!
Skipping a value of any kind and any depth. What is open is kept on a stack of frames, so depth
costs nothing but the stack. A value that is skipped has to be written according to the grammar,
and nothing more.
-/

namespace CryptolEdit.Json

open Decimal (isDigit)

/-- A bracket that is open. -/
inductive Frame where
  | array
  | object
deriving DecidableEq, Repr

/-- What comes next. -/
inductive Stage where
  /-- A value. -/
  | value
  /-- What may stand behind a value. -/
  | behind
deriving DecidableEq, Repr

/-- Skips a value that is no bracket. -/
def skipScalar : Text → Except Fault Text
  | [] => .error .ended
  | 'n' :: t => word nullTail t
  | 't' :: t => word trueTail t
  | 'f' :: t => word falseTail t
  | '-' :: t => skipNumber t
  | '"' :: t => skipString t
  | c :: t => if isDigit c then skipNumber (c :: t) else .error .malformed

/-- Skips a key and its colon. -/
def skipKey (t : Text) : Except Fault Text :=
  match trim t with
  | [] => .error .ended
  | '"' :: r =>
    match skipString r with
    | .error fault => .error fault
    | .ok r => colon r
  | _ => .error .malformed

theorem length_skipScalar {t rest : Text} (h : skipScalar t = .ok rest) :
    rest.length < t.length := by
  unfold skipScalar at h
  split at h
  · simp at h
  · exact Nat.lt_succ_of_le (length_word h)
  · exact Nat.lt_succ_of_le (length_word h)
  · exact Nat.lt_succ_of_le (length_word h)
  · exact Nat.lt_succ_of_lt (length_skipNumber h)
  · exact Nat.lt_succ_of_lt (length_skipString h)
  · split at h
    · exact length_skipNumber h
    · simp at h

theorem length_skipKey {t rest : Text} (h : skipKey t = .ok rest) : rest.length < t.length := by
  unfold skipKey at h
  split at h
  · simp at h
  · next r hr =>
    split at h
    · simp at h
    · next u hu =>
      have := length_of_trim hr
      have := length_skipString hu
      have := length_colon h
      omega
  · simp at h

/-- Skips on until the bracket that was opened first is closed. -/
def skipFrom (stage : Stage) (frames : List Frame) (t : Text) : Except Fault Text :=
  match stage with
  | .value =>
    match _h : trim t with
    | '[' :: r =>
      match _hr : trim r with
      | ']' :: r => skipFrom .behind frames r
      | _ => skipFrom .value (.array :: frames) r
    | '\x7b' :: r =>
      match _hr : trim r with
      | '\x7d' :: r => skipFrom .behind frames r
      | _ =>
        match _hk : skipKey r with
        | .error fault => .error fault
        | .ok r => skipFrom .value (.object :: frames) r
    | r =>
      match _hs : skipScalar r with
      | .error fault => .error fault
      | .ok r => skipFrom .behind frames r
  | .behind =>
    match frames with
    | [] => .ok t
    | .array :: outer =>
      match _h : trim t with
      | [] => .error .ended
      | ']' :: r => skipFrom .behind outer r
      | ',' :: r => skipFrom .value (.array :: outer) r
      | _ => .error .malformed
    | .object :: outer =>
      match _h : trim t with
      | [] => .error .ended
      | '\x7d' :: r => skipFrom .behind outer r
      | ',' :: r =>
        match _hk : skipKey r with
        | .error fault => .error fault
        | .ok r => skipFrom .value (.object :: outer) r
      | _ => .error .malformed
termination_by t.length
decreasing_by
  · exact Nat.lt_trans (length_of_trim _hr) (length_of_trim _h)
  · exact length_of_trim _h
  · exact Nat.lt_trans (length_of_trim _hr) (length_of_trim _h)
  · exact Nat.lt_trans (length_skipKey _hk) (length_of_trim _h)
  · exact Nat.lt_of_lt_of_le (length_skipScalar _hs) (_h ▸ length_trim t)
  · exact length_of_trim _h
  · exact length_of_trim _h
  · exact length_of_trim _h
  · exact Nat.lt_trans (length_skipKey _hk) (length_of_trim _h)

/-- Skips a value. -/
def skip (t : Text) : Except Fault Text := skipFrom .value [] t

theorem length_skipFrom {stage : Stage} {frames : List Frame} {t rest : Text}
    (h : skipFrom stage frames t = .ok rest) : rest.length ≤ t.length := by
  fun_induction skipFrom stage frames t with
  | case1 _ _ _ ht _ hr ih | case3 _ _ _ ht _ hr ih =>
    have := length_of_trim ht
    have := length_of_trim hr
    exact Nat.le_trans (ih h) (by omega)
  | case2 _ _ _ ht _ ih => exact Nat.le_trans (ih h) (Nat.le_of_lt (length_of_trim ht))
  | case5 _ _ _ ht _ hk _ ih =>
    have := length_of_trim ht
    have := length_skipKey hk
    exact Nat.le_trans (ih h) (by omega)
  | case7 _ t _ _ _ hs ih =>
    have := length_trim t
    have := length_skipScalar hs
    exact Nat.le_trans (ih h) (by omega)
  | case8 => simp_all
  | case10 _ _ _ ht ih | case11 _ _ _ ht ih | case14 _ _ _ ht ih =>
    exact Nat.le_trans (ih h) (Nat.le_of_lt (length_of_trim ht))
  | case16 _ _ _ ht _ hk ih =>
    have := length_of_trim ht
    have := length_skipKey hk
    exact Nat.le_trans (ih h) (by omega)
  | case4 | case6 | case9 | case12 | case13 | case15 | case17 => simp at h

theorem length_skip {t rest : Text} (h : skip t = .ok rest) : rest.length ≤ t.length :=
  length_skipFrom h

end CryptolEdit.Json

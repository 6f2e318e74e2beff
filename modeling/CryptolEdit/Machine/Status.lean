import CryptolEdit.Decimal.Digits

/-!
How a program ends, and the signals that can end it.
-/

namespace CryptolEdit.Machine

-- =========================================================== signals

/-- Signals by number, with the names that they have after `SIG`. -/
def signals : List (Nat × Text) :=
  [(1, "HUP"), (2, "INT"), (3, "QUIT"), (4, "ILL"), (5, "TRAP"), (6, "ABRT"), (7, "BUS"),
   (8, "FPE"), (9, "KILL"), (10, "USR1"), (11, "SEGV"), (12, "USR2"), (13, "PIPE"), (14, "ALRM"),
   (15, "TERM"), (16, "STKFLT"), (17, "CHLD"), (18, "CONT"), (19, "STOP"), (20, "TSTP"),
   (21, "TTIN"), (22, "TTOU"), (23, "URG"), (24, "XCPU"), (25, "XFSZ"), (26, "VTALRM"),
   (27, "PROF"), (28, "WINCH"), (29, "IO"), (30, "PWR"), (31, "SYS")].map fun (n, s) =>
    (n, s.toList)

/-- The greatest number of a signal. -/
def lastSignal : Nat := 64

/-- Signals that do nothing to a program which has not asked for them. -/
def harmless : List Nat := [17, 18, 23, 28]

/-- The signal that tells a process of the end of another that it has started. -/
def childSignal : Nat := 17

/-- Signals that halt a program. -/
def halting : List Nat := [19, 20, 21, 22]

/-- Signals that no program can refuse. -/
def undeniable : List Nat := [9, 19]

-- ============================================================ status

/-- How a program ended. -/
inductive Status where
  | exited (code : Nat)
  | signalled (number : Nat)
deriving DecidableEq, Repr

namespace Status

def success : Status := .exited 0

def display : Status → Text
  | exited code => "exit status: ".toList ++ Decimal.digits code
  | signalled number =>
    let name := match signals.lookup number with
      | some n => " (SIG".toList ++ n ++ [')']
      | none => []
    "signal: ".toList ++ Decimal.digits number ++ name

/-- The code of a program that ended by itself. -/
def code? : Status → Option Nat
  | exited code => some code
  | signalled _ => none

/-- The code that a shell gives for a program that it has run. -/
def shellCode : Status → Nat
  | exited code => code
  | signalled number => 128 + number

end Status

end CryptolEdit.Machine

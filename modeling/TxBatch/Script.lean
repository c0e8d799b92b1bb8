import TxBatch.Access
import TxBatch.Program

/-! # Scripts

A small language of transactions over counters: a script keeps one 64-bit value and a record of
the keys it touched, and answers with both. A request holds one script an attempt, so that what a
transaction does can change when it is sent back.
-/

namespace TxBatch

/-- A script is an instruction and the rest of the script. -/
inductive Script where
  | done
  | set (value : UInt64) (next : Script)
  /-- Read a key and add what is found to the value. -/
  | read (key : Key) (next : Script)
  | write (key : Key) (value : UInt64) (next : Script)
  | writeValue (key : Key) (next : Script)
  /-- Read a key and write it back increased; the value stays. -/
  | add (key : Key) (amount : UInt64) (next : Script)
  /-- Record a read without reading. -/
  | touchRead (key : Key) (next : Script)
  /-- Record a write without writing. -/
  | touchWrite (key : Key) (next : Script)
  /-- Discard what earlier attempts at the same position wrote. -/
  | clear (next : Script)
  /-- Go on with one of two scripts, by whether the value reaches a bound. -/
  | ifAtLeast (bound : UInt64) (yes no next : Script)
  /-- Abort unless the key is found. -/
  | need (key : Key) (next : Script)
  /-- Abort if the key was written by a transaction of the batch. -/
  | waitBase (key : Key) (next : Script)
  | cancel (next : Script)
  | abort (signal : AbortSignal)
  | fail (reason : String)
  | crash (report : String)

namespace Script

structure Response where
  value : UInt64
  version : Version
  access : Access
deriving DecidableEq

instance : Tracked Response := ⟨Response.access⟩

structure Register where
  value : UInt64 := 0
  access : Access := {}

def Register.noteRead (r : Register) (key : Key) : Register :=
  { r with access := r.access.read key }

def Register.noteWrite (r : Register) (key : Key) : Register :=
  { r with access := r.access.write key }

/-- The number that a read finds; a missing key counts as zero. -/
def amount (found : Reading UInt64) : UInt64 := found.value?.getD 0

/-- The script as a program that goes on with `rest`. -/
def program : Script → Register → (Register → Program UInt64 Response) → Program UInt64 Response
  | .done, r, rest => rest r
  | .set value next, r, rest => next.program { r with value } rest
  | .read key next, r, rest =>
    .read key fun found =>
      next.program { r.noteRead key with value := r.value + amount found } rest
  | .write key value next, r, rest => .write key value (next.program (r.noteWrite key) rest)
  | .writeValue key next, r, rest => .write key r.value (next.program (r.noteWrite key) rest)
  | .add key more next, r, rest =>
    .read key fun found =>
      .write key (amount found + more) (next.program ((r.noteRead key).noteWrite key) rest)
  | .touchRead key next, r, rest => next.program (r.noteRead key) rest
  | .touchWrite key next, r, rest => next.program (r.noteWrite key) rest
  | .clear next, r, rest => .clear (next.program r rest)
  | .ifAtLeast bound yes no next, r, rest =>
    if bound ≤ r.value then yes.program r fun r => next.program r rest
    else no.program r fun r => next.program r rest
  | .need key next, r, rest =>
    .read key fun found =>
      match found.value? with
      | some _ => next.program (r.noteRead key) rest
      | none => .finish (.aborted .requested)
  | .waitBase key next, r, rest =>
    .read key fun found =>
      match found.version? with
      | some version => .finish (.aborted (.dependency version.index))
      | none => next.program (r.noteRead key) rest
  | .cancel next, r, rest => .cancel (next.program r rest)
  | .abort signal, _, _ => .finish (.aborted signal)
  | .fail reason, _, _ => .finish (.failed reason)
  | .crash report, _, _ => .finish (.crashed report)

/-- The script run at an attempt: the one of its incarnation, or the last. -/
def attempt (attempts : List Script) (incarnation : Nat) : Script :=
  attempts.getD (min incarnation (attempts.length - 1)) .done

/-- Executes a request of one script an attempt. -/
def execute (attempts : List Script) (version : Version) : Program UInt64 Response :=
  (attempt attempts version.incarnation).program {} fun r =>
    .finish (.returned ⟨r.value, version, r.access⟩)

def executor : Executor (Store UInt64) (List Script) Response := fun attempts version =>
  (execute attempts version).call version

end Script

end TxBatch

import TxBatch.Proofs.FinalReads
import TxBatch.Script

/-!
# Scripts record what they touch

Every script answers with all keys that it read and wrote (`Script.execute_records`). The register
only gains keys on the way, and each access notes its key before the script goes on, so the keys of
any part of a script are in the answer that it leads to (`Script.covered_program`).
-/

namespace TxBatch

open Journal

variable {V : Type}

theorem Journal.Covered.consClear {entries : List (Entry V)} {access : Access}
    (h : Covered entries access) : Covered (.clear :: entries) access :=
  ⟨fun hmem => h.reads (by simpa using hmem), fun hmem => h.writes (by simpa using hmem)⟩

theorem Program.Records.clear {R : Type} [Tracked R] {program : Program V R}
    (h : program.Records) : (Program.clear program).Records := by
  intro entries response hpath
  cases hpath with
  | clear hrest => exact (h _ _ hrest).consClear

namespace Script

/-- An answer with the keys that were noted so far, and with those that the accesses to come touch. -/
structure Covers (answer noted : Access) (entries : List (Entry UInt64)) : Prop where
  reads : ∀ {key}, key ∈ noted.reads → key ∈ answer.reads
  writes : ∀ {key}, key ∈ noted.writes → key ∈ answer.writes
  entries : Covered entries answer

namespace Covers

variable {answer noted : Access} {entries : List (Entry UInt64)} {key : Key}

theorem touchRead (h : Covers answer (noted.read key) entries) : Covers answer noted entries :=
  ⟨fun hmem => h.reads (by simp [Access.read, hmem]), h.writes, h.entries⟩

theorem touchWrite (h : Covers answer (noted.write key) entries) : Covers answer noted entries :=
  ⟨h.reads, fun hmem => h.writes (by simp [Access.write, hmem]), h.entries⟩

/-- A key that is noted when it is read is in the answer. -/
theorem read (h : Covers answer (noted.read key) entries) (found : Reading UInt64) :
    Covers answer noted (.read key found :: entries) := by
  refine { h.touchRead with entries := ⟨fun {key' found'} hmem => ?_, fun hmem => ?_⟩ }
  · rcases List.mem_cons.mp hmem with heq | hmem
    · cases heq
      exact h.reads (by simp [Access.read])
    · exact h.entries.reads hmem
  · exact h.entries.writes (by simpa using hmem)

theorem write (h : Covers answer (noted.write key) entries) (value : UInt64) :
    Covers answer noted (.write key value :: entries) := by
  refine { h.touchWrite with entries := ⟨fun hmem => ?_, fun {key' value'} hmem => ?_⟩ }
  · exact h.entries.reads (by simpa using hmem)
  · rcases List.mem_cons.mp hmem with heq | hmem
    · cases heq
      exact h.writes (by simp [Access.write])
    · exact h.entries.writes hmem

theorem clear (h : Covers answer noted entries) : Covers answer noted (.clear :: entries) :=
  { h with entries := h.entries.consClear }

theorem cancel (h : Covers answer noted entries) : Covers answer noted (.cancel :: entries) :=
  { h with
    entries := ⟨fun hmem => h.entries.reads (by simpa using hmem),
      fun hmem => h.entries.writes (by simpa using hmem)⟩ }

end Covers

/-- A script that goes on to cover what it touches covers what it touches. -/
theorem covered_program {response : Response} (script : Script) :
    ∀ {r : Register} {rest : Register → Program UInt64 Response}
      {entries : List (Entry UInt64)},
      (∀ {r' entries'}, (rest r').Path entries' (.returned response) →
        Covers response.access r'.access entries') →
      (script.program r rest).Path entries (.returned response) →
      Covers response.access r.access entries := by
  induction script with
  | done => exact fun hrest hpath => hrest hpath
  | set value next ih => exact fun hrest hpath => ih (r := { value, access := _ }) hrest hpath
  | read key next ih =>
      intro r rest entries hrest hpath
      cases hpath with
      | read found hpath => exact (ih hrest hpath).read found
  | write key value next ih =>
      intro r rest entries hrest hpath
      cases hpath with
      | write hpath => exact (ih hrest hpath).write value
  | writeValue key next ih =>
      intro r rest entries hrest hpath
      cases hpath with
      | write hpath => exact (ih hrest hpath).write r.value
  | add key more next ih =>
      intro r rest entries hrest hpath
      cases hpath with
      | read found hpath =>
          cases hpath with
          | write hpath => exact ((ih hrest hpath).write _).read found
  | touchRead key next ih => exact fun hrest hpath => (ih hrest hpath).touchRead
  | touchWrite key next ih => exact fun hrest hpath => (ih hrest hpath).touchWrite
  | clear next ih =>
      intro r rest entries hrest hpath
      cases hpath with
      | clear hpath => exact (ih hrest hpath).clear
  | ifAtLeast bound yes no next ihyes ihno ihnext =>
      intro r rest entries hrest hpath
      unfold program at hpath
      split at hpath
      · exact ihyes (fun hpath => ihnext hrest hpath) hpath
      · exact ihno (fun hpath => ihnext hrest hpath) hpath
  | need key next ih =>
      intro r rest entries hrest hpath
      cases hpath with
      | read found hpath =>
          cases hvalue : found.value? with
          | none =>
              simp only [hvalue] at hpath
              cases hpath
          | some value =>
              simp only [hvalue] at hpath
              exact (ih hrest hpath).read found
  | waitBase key next ih =>
      intro r rest entries hrest hpath
      cases hpath with
      | read found hpath =>
          cases hversion : found.version? with
          | some version =>
              simp only [hversion] at hpath
              cases hpath
          | none =>
              simp only [hversion] at hpath
              exact (ih hrest hpath).read found
  | cancel next ih =>
      intro r rest entries hrest hpath
      cases hpath with
      | cancel hpath => exact (ih hrest hpath).cancel
  | abort signal => exact fun hrest hpath => nomatch hpath
  | fail reason => exact fun hrest hpath => nomatch hpath
  | crash report => exact fun hrest hpath => nomatch hpath

theorem execute_records (attempts : List Script) (version : Version) :
    (execute attempts version).Records := by
  intro entries response hpath
  refine (covered_program _ (fun {r entries'} hend => ?_) hpath).entries
  cases hend
  exact ⟨id, id, fun hmem => (List.not_mem_nil hmem).elim, fun hmem => (List.not_mem_nil hmem).elim⟩

end Script

end TxBatch

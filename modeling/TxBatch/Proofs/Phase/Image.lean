import Mathlib.Data.List.Forall2
import TxBatch.Proofs.Phase.Steps

/-!
# A phase seen through its state

Let `f` forget a part of the shared state. A call maps to another along `f` if the two make the
same steps, the second on what `f` leaves (`Call.Maps`). Phases of calls that map to one another
run side by side under every schedule: same jobs, same log, same outcomes, and the second world is
the image of the first (`Phase.run_map`). So a state may be given a memory of what was done to it,
and nothing that the calls do is changed by that.
-/

namespace TxBatch

variable {S S' Req R : Type} {f : S → S'}

def World.map (f : S → S') (w : World S) : World S' := ⟨f w.state, w.cancelled⟩

/-- The second call does on the image of the state what the first does on the state. -/
inductive Call.Maps (f : S → S') : Call S R → Call S' R → Prop
  | finish (result : CallEnd R) : Maps f (.finish result) (.finish result)
  | step {effect : World S → Effect S} {next : World S → Call S R}
      {effect' : World S' → Effect S'} {next' : World S' → Call S' R}
      (heffect : ∀ w, effect' (w.map f) = ⟨f (effect w).state, (effect w).cancels⟩)
      (hnext : ∀ w, Maps f (next w) (next' (w.map f))) :
      Maps f (.step effect next) (.step effect' next')

theorem World.map_apply {w : World S} {effect : World S → Effect S}
    {effect' : World S' → Effect S'}
    (heffect : ∀ w, effect' (w.map f) = ⟨f (effect w).state, (effect w).cancels⟩) :
    (w.apply (effect w)).map f = (w.map f).apply (effect' (w.map f)) := by
  rw [heffect]
  rfl

theorem Call.Maps.run {call : Call S R} {call' : Call S' R} (h : Call.Maps f call call') :
    ∀ w : World S, call'.run (w.map f) = ((call.run w).1, (call.run w).2.map f) := by
  induction h with
  | finish result => exact fun w => rfl
  | step heffect hnext ih =>
      intro w
      simp only [Call.run]
      rw [← World.map_apply heffect, ih]

/-! ## Lists of calls side by side -/

section Beside

variable {α β : Type} {P : α → β → Prop} {l : List α} {l' : List β}

theorem forall₂_getElem? (h : List.Forall₂ P l l') (place : Nat) :
    (l[place]? = none ∧ l'[place]? = none) ∨
      ∃ a b, l[place]? = some a ∧ l'[place]? = some b ∧ P a b := by
  induction h generalizing place with
  | nil => exact .inl ⟨rfl, rfl⟩
  | cons hhead _ ih =>
      cases place with
      | zero => exact .inr ⟨_, _, rfl, rfl, hhead⟩
      | succ place => simpa using ih place

theorem forall₂_set (h : List.Forall₂ P l l') {a : α} {b : β} (hab : P a b) (place : Nat) :
    List.Forall₂ P (l.set place a) (l'.set place b) := by
  induction h generalizing place with
  | nil => exact .nil
  | cons hhead htail ih =>
      cases place with
      | zero => exact .cons hab htail
      | succ place => exact .cons hhead (ih place)

theorem forall₂_eraseIdx (h : List.Forall₂ P l l') (place : Nat) :
    List.Forall₂ P (l.eraseIdx place) (l'.eraseIdx place) := by
  induction h generalizing place with
  | nil => exact .nil
  | cons hhead htail ih =>
      cases place with
      | zero => exact htail
      | succ place => exact .cons hhead (ih place)

end Beside

namespace Phase

/-- The second phase is the image of the first, and its calls are images of the first's. -/
structure Maps (f : S → S') (p : Phase S Req R) (p' : Phase S' Req R) : Prop where
  world : p'.world = p.world.map f
  queue : p'.queue = p.queue
  running : List.Forall₂ (fun entry entry' => entry'.1 = entry.1 ∧ Call.Maps f entry.2 entry'.2)
    p.running p'.running
  workers : p'.workers = p.workers
  arrivals : p'.arrivals = p.arrivals
  unnoticed : p'.unnoticed = p.unnoticed
  failure : p'.failure = p.failure
  log : p'.log = p.log

theorem Maps.conclude {p : Phase S Req R} {p' : Phase S' Req R} (h : Maps f p p')
    (job : Job Req) (result : CallEnd R) :
    Maps f (p.conclude job result) (p'.conclude job result) := by
  obtain ⟨hworld, hqueue, hrunning, hworkers, harrivals, hunnoticed, hfailure, hlog⟩ := h
  cases result with
  | returned response =>
      exact ⟨hworld, hqueue, hrunning, hworkers, by simp [Phase.conclude, arrive, harrivals],
        hunnoticed, hfailure, by simp [hlog]⟩
  | aborted signal =>
      exact ⟨hworld, hqueue, hrunning, hworkers, by simp [Phase.conclude, arrive, harrivals],
        hunnoticed, hfailure, by simp [hlog]⟩
  | failed reason =>
      exact ⟨hworld, hqueue, hrunning, by simp [Phase.conclude, lose, hworkers], harrivals,
        by simp [Phase.conclude, lose, hunnoticed], hfailure, by simp [hlog]⟩
  | crashed report =>
      exact ⟨hworld, hqueue, hrunning, by simp [Phase.conclude, lose, hworkers], harrivals,
        by simp [Phase.conclude, lose, hunnoticed], hfailure, by simp [hlog]⟩

theorem Maps.canTake {p : Phase S Req R} {p' : Phase S' Req R} (h : Maps f p p') :
    p'.canTake = p.canTake := by
  simp only [Phase.canTake, stopped_eq, h.world, h.failure, h.workers, h.running.length_eq,
    World.map]

theorem Maps.verdict {p : Phase S Req R} {p' : Phase S' Req R} (h : Maps f p p')
    (summary : Summary) : p'.verdict summary = p.verdict summary := by
  simp only [Phase.verdict, h.world, h.failure, World.map]

theorem Maps.noticeAll {p : Phase S Req R} {p' : Phase S' Req R} (h : Maps f p p') :
    Maps f p.noticeAll p'.noticeAll :=
  { h with
    unnoticed := rfl
    failure := by simp [Phase.noticeAll, h.failure, h.unnoticed] }

/-- Calls that map to one another are taken to their ends side by side. -/
theorem Maps.finishRunning {p : Phase S Req R} {p' : Phase S' Req R} (h : Maps f p p') :
    Maps f p.finishRunning p'.finishRunning := by
  suffices hall : ∀ (running : List (Job Req × Call S R)) (running' : List (Job Req × Call S' R)),
      List.Forall₂ (fun entry entry' => entry'.1 = entry.1 ∧ Call.Maps f entry.2 entry'.2)
        running running' → ∀ (p : Phase S Req R) (p' : Phase S' Req R),
        Maps f { p with running } { p' with running := running' } →
        Maps f { p with running }.finishRunning { p' with running := running' }.finishRunning from
    hall p.running p'.running h.running p p' h
  intro running running' hrunning
  induction hrunning with
  | nil => exact fun p p' h => h
  | @cons entry entry' rest rest' hhead htail ih =>
      intro p p' h
      obtain ⟨job, call⟩ := entry
      obtain ⟨job', call'⟩ := entry'
      obtain ⟨hjob, hcall⟩ := hhead
      dsimp only at hjob hcall
      subst hjob
      have hworld : p'.world = p.world.map f := h.world
      have hrun := hcall.run p.world
      rw [← hworld] at hrun
      have hrest := ih ({ p with world := (call.run p.world).2 }.conclude job' (call.run p.world).1)
        ({ p' with world := (call'.run p'.world).2 }.conclude job' (call'.run p'.world).1)
      rw [← conclude_running, ← conclude_running, hrun] at hrest
      rw [finishRunning_cons, finishRunning_cons, hrun]
      refine hrest (Maps.conclude ?_ _ _)
      exact { h with world := rfl, running := htail }

section Executor

variable {executor : Executor S Req R} {executor' : Executor S' Req R}
  (hexecutor : ∀ request version, Call.Maps f (executor request version)
    (executor' request version))

include hexecutor

theorem Maps.take {p : Phase S Req R} {p' : Phase S' Req R} (h : Maps f p p') :
    Maps f (p.take executor) (p'.take executor') := by
  simp only [Phase.take, h.queue, h.canTake]
  split
  · exact h
  · rename_i job rest hqueue
    split
    · exact { h with
        queue := rfl
        running := List.rel_append h.running (.cons ⟨rfl, hexecutor _ _⟩ .nil)
        log := congrArg (.started job :: ·) h.log }
    · exact h

theorem Maps.act {p : Phase S Req R} {p' : Phase S' Req R} (h : Maps f p p') (choice : Choice) :
    Maps f (p.act executor choice) (p'.act executor' choice) := by
  cases choice with
  | take => exact h.take hexecutor
  | advance place =>
      simp only [Phase.act, advance]
      rcases forall₂_getElem? h.running place with ⟨hnone, hnone'⟩ | ⟨⟨job, call⟩, ⟨job', call'⟩,
        hplace, hplace', rfl, hcall⟩
      · rw [hnone, hnone']
        exact h
      · rw [hplace, hplace']
        cases hcall with
        | finish result =>
            have hleft : Maps f { p with running := p.running.eraseIdx place }
                { p' with running := p'.running.eraseIdx place } :=
              { h with running := forall₂_eraseIdx h.running place }
            exact hleft.conclude _ _
        | step heffect hnext =>
            refine { h with
              world := ?_
              running := forall₂_set h.running ⟨rfl, ?_⟩ place }
            · rw [World.map_apply heffect, h.world]
            · rw [h.world]
              exact hnext _
  | notice place =>
      simp only [Phase.act, notice, h.unnoticed]
      split
      · exact h
      · exact { h with
          unnoticed := rfl
          failure := by simp [h.failure] }

theorem Maps.foldl (schedule : List Choice) : ∀ {p : Phase S Req R} {p' : Phase S' Req R},
    Maps f p p' → Maps f (schedule.foldl (Phase.act executor) p)
      (schedule.foldl (Phase.act executor') p') := by
  induction schedule with
  | nil => exact fun h => h
  | cons choice rest ih => exact fun h => ih (h.act hexecutor choice)

theorem Maps.drainQueue (count : Nat) : ∀ {p : Phase S Req R} {p' : Phase S' Req R},
    Maps f p p' → Maps f (p.drainQueue executor count) (p'.drainQueue executor' count) := by
  induction count with
  | zero => exact fun h => h
  | succ count ih =>
      intro p p' h
      simp only [Phase.drainQueue, h.canTake]
      split
      · exact ih (h.take hexecutor).finishRunning.noticeAll
      · exact h

theorem Maps.drain {p : Phase S Req R} {p' : Phase S' Req R} (h : Maps f p p') :
    Maps f (p.drain executor) (p'.drain executor') := by
  have hstill := h.finishRunning.noticeAll
  simp only [Phase.drain, hstill.queue]
  exact hstill.drainQueue hexecutor _

/-- **A phase over the image of the state is the image of the phase.** -/
theorem run_map (workers : Int64) (schedule : List Choice) (round : Nat) (world : World S)
    (tasks : List (Task Req R)) :
    let ended := run executor workers schedule round world tasks
    run executor' workers schedule round (world.map f) tasks =
      ⟨ended.verdict, ended.tasks, ended.world.map f, ended.log⟩ := by
  intro ended
  have hstart : Maps f (start workers world tasks) (start workers (world.map f) tasks) :=
    ⟨rfl, rfl, .nil, rfl, rfl, rfl, rfl, rfl⟩
  have hlast := (hstart.foldl hexecutor schedule).drain hexecutor
  have hcancelled : (world.map f).cancelled = world.cancelled := rfl
  simp only [ended, run, hcancelled]
  split
  · rfl
  · split
    · rfl
    · simp only [hlast.verdict, hlast.arrivals, hlast.world, hlast.log]

end Executor

end Phase

end TxBatch

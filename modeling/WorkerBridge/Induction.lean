import WorkerBridge.Recovery

namespace WorkerBridge

open TaskState

/-- A condition on the settings of each process and on each step. -/
structure Allowed where
  settings : Settings → Prop
  action : Process → Action → Prop

namespace Allowed

/-- The condition on events.  A step that a crash cuts short counts too. -/
def ok (A : Allowed) : Bridge → Event → Prop
  | _, .start settings _ => A.settings settings
  | _, .startCrash settings _ _ => A.settings settings
  | .up p, .act action => A.action p action
  | .up p, .actCrash action _ => A.action p action
  | _, _ => True

def any : Allowed := ⟨fun _ => True, fun _ _ => True⟩

instance (A : Allowed) [DecidablePred A.settings] [∀ p a, Decidable (A.action p a)] (b : Bridge)
    (e : Event) : Decidable (A.ok b e) :=
  match b, e with
  | _, .start settings _ => inferInstanceAs (Decidable (A.settings settings))
  | _, .startCrash settings _ _ => inferInstanceAs (Decidable (A.settings settings))
  | .up p, .act action => inferInstanceAs (Decidable (A.action p action))
  | .up p, .actCrash action _ => inferInstanceAs (Decidable (A.action p action))
  | .down _, .act _ => isTrue trivial
  | .down _, .actCrash _ _ => isTrue trivial
  | .down _, .crash => isTrue trivial
  | .up _, .crash => isTrue trivial

theorem any_ok {b : Bridge} {e : Event} : any.ok b e := by
  cases b <;> cases e <;> trivial

end Allowed

/-- What carries a property of databases `D` and of processes `U` over runs. -/
structure Rule (A : Allowed) (D : World → Prop) (U : Process → Prop) : Prop where
  empty : D World.empty
  mark : ∀ {w w' : World}, Sound w.store.get → D w → w.Marks w' → D w'
  boot : ∀ {w : World} {settings : Settings} {ready : List TaskRecord} {p : Process},
    A.settings settings → Sound w.store.get → D w → Booted w settings ready p → U p
  move : ∀ {p p' : Process} {a : Action}, A.action p a → p.Inv → U p → p.Moves a p' → U p'
  world : ∀ {p : Process}, p.Inv → U p → D p.world
  forget : ∀ {w : World} {calls : List WorkerCall} {answers : List Answer}, D w →
    calls <:+ w.calls → answers <:+ w.answers → D { w with calls := calls, answers := answers }

def Bridge.Holds (D : World → Prop) (U : Process → Prop) : Bridge → Prop
  | .down w => D w
  | .up p => U p

theorem Sound.empty : Sound World.empty.store.get := by
  have hnone : ∀ id r, World.empty.store.get id ≠ some r := by
    intro id r hr
    have hempty : World.empty.store.get id = none := rfl
    rw [hempty] at hr
    cases hr
  exact ⟨fun id r hr => absurd hr (hnone id r), fun id r hr => absurd hr (hnone id r)⟩

theorem Sound.mark {w w' : World} (hs : Sound w.store.get) (h : w.Marks w') :
    Sound w'.store.get := by
  cases h with
  | @mk now r store hrow _ _ hstore =>
    have hset : RowSet w.store.get store.get r.taskId (Store.markRecovering r now) :=
      RowSet.of_upsert hrow rfl rfl hstore
    have hbound := hs.bound _ _ hrow
    exact hs.set hset hbound (show recovering ≠ retrying by decide)

namespace Process

/-- A step writes the database once or not at all, and only adds to the rest. -/
structure Extends (w w' : World) : Prop where
  writes : (w'.past = w.past ∧ w'.store = w.store) ∨ w'.past = w.store :: w.past
  lifetimes : w'.lifetimes = w.lifetimes
  calls : w.calls <:+ w'.calls
  answers : w.answers <:+ w'.answers

theorem Moves.extends {p p' : Process} {a : Action} (h : p.Moves a p') :
    Extends p.world p'.world := by
  have hsame : Extends p.world p.world := ⟨Or.inl ⟨rfl, rfl⟩, rfl, List.suffix_rfl, List.suffix_rfl⟩
  have hwrite : ∀ store, Extends p.world (p.world.write store) :=
    fun store => ⟨Or.inr rfl, rfl, List.suffix_rfl, List.suffix_rfl⟩
  cases h with
  | idle => exact hsame
  | replay => exact ⟨Or.inl ⟨rfl, rfl⟩, rfl, List.suffix_rfl, List.suffix_cons _ _⟩
  | accept => exact ⟨Or.inr rfl, rfl, List.suffix_rfl, List.suffix_cons _ _⟩
  | cancel => exact hwrite _
  | sleep => exact hsame
  | attempt => exact ⟨Or.inr rfl, rfl, List.suffix_cons _ _, List.suffix_rfl⟩
  | quit => exact hsame
  | settle => exact hwrite _
  | abandon => exact hwrite _
  | callback => exact hsame
  | stop => exact (stop_world p).symm ▸ hsame
  | stopped => exact hsame
  | reload => exact hsame

end Process

namespace Rule

variable {A : Allowed} {D : World → Prop} {U : Process → Prop}

theorem marks (R : Rule A D U) {w w' : World} (h : w.MarksMany w')
    (hd : Sound w.store.get ∧ D w) : Sound w'.store.get ∧ D w' := by
  induction h with
  | refl => exact hd
  | tail _ hm ih => exact ⟨ih.1.mark hm, R.mark ih.1 ih.2 hm⟩

theorem crash (R : Rule A D U) {p p' : Process} {a : Action} {w : World} {lost : ℕ}
    (ha : A.action p a) (hi : p.Inv) (hu : U p) (hm : p.Moves a p')
    (hw : p.world.crashed p'.world lost = some w) : Sound w.store.get ∧ D w := by
  have hx := hm.extends
  have hold : Sound p.world.store.get ∧ D p.world := ⟨hi.sound, R.world hi hu⟩
  rcases hx.writes with ⟨hpast, hstore⟩ | hpast
  · rw [World.crashed_same hpast hstore hw]
    exact hold
  · rcases World.crashed_write hpast hw with rfl | rfl
    · exact hold
    · have hi' := hm.inv hi
      have hd := R.forget (R.world hi' (R.move ha hi hu hm)) hx.calls hx.answers
      rw [hpast, hx.lifetimes] at hd
      exact ⟨hi'.sound, hd⟩

/-- Every reachable state has the property. -/
theorem holds (R : Rule A D U) {host : Host} {b : Bridge}
    (h : (Bridge.machine host).Reachable A.ok b) :
    b.Holds (fun w => Sound w.store.get ∧ D w) (fun p => p.Inv ∧ U p) := by
  refine h.invariant ?_ ?_
  · exact ⟨Sound.empty, R.empty⟩
  · intro b e b' hok hb hstep
    cases Bridge.step_steps hstep with
    | started w settings now p hp =>
      obtain ⟨w', ready, hmarks, hboot⟩ := started_booted hp
      obtain ⟨hs, hd⟩ := R.marks hmarks hb
      exact ⟨hboot.inv hs, R.boot hok hs hd hboot⟩
    | startCrashed w settings now lost p w'' hp hcrash =>
      obtain ⟨w', ready, hmarks, hboot⟩ := started_booted hp
      rw [hboot.world] at hcrash
      exact R.marks (World.crashed_marks hmarks hcrash) hb
    | acted p a p' hp =>
      have hm := Process.act_moves hb.1 hp
      exact ⟨hm.inv hb.1, R.move hok hb.1 hb.2 hm⟩
    | actCrashed p a lost p' w hp hcrash =>
      exact R.crash hok hb.1 hb.2 (Process.act_moves hb.1 hp) hcrash
    | crashed p => exact ⟨hb.1.sound, R.world hb.1 hb.2⟩

end Rule

end WorkerBridge

import WorkerBridge.Migration
import WorkerBridge.Recovery

namespace WorkerBridge

namespace Sqlite

open Sql TaskState

abbrev Arrangement := { arrange : List Row → List Row // ∀ rows, (arrange rows).Perm rows }

inductive StoreCall
  | reopen (crashes : List ℕ)
  | upsert (task : TaskRecord)
  | createOrGet (task : TaskRecord)
  | get (taskId : String)
  | getByIdempotencyKey (key : String)
  | listByStates (states : List TaskState) (order : Arrangement)
  | countByStates (states : List TaskState) (workerId : Option String)
  | markRecovering (now : String) (order : Arrangement)
  | ping (now : String)

inductive Returned
  | nothing
  | created (task : TaskRecord) (created : Bool)
  | found (task : Option TaskRecord)
  | listed (tasks : List TaskRecord)
  | counted (n : ℕ)

abbrev Reply := Except PyExc Returned

/-- The state after a call; what a call that raises has done is undone. -/
def settle {σ : Type} (s : σ) : Except PyExc (σ × Returned) → σ × Reply
  | .ok (s', returned) => (s', .ok returned)
  | .error exc => (s, .error exc)

def databaseCall (c : Codec) (db : Database) : StoreCall → Database × Reply
  | .reopen crashes => settle db (((reopen db crashes).mapError pyExc).map fun db => (db, .nothing))
  | .upsert task => settle db ((Sqlite.upsert c db task).map fun db => (db, .nothing))
  | .createOrGet task =>
    settle db ((Sqlite.createOrGet c db task).map fun x => (x.1, .created x.2.1 x.2.2))
  | .get taskId => settle db ((Sqlite.get c db taskId).map fun task => (db, .found task))
  | .getByIdempotencyKey key =>
    settle db ((Sqlite.getByIdempotencyKey c db key).map fun task => (db, .found task))
  | .listByStates states order =>
    settle db ((Sqlite.listByStates c order.val db states).map fun tasks => (db, .listed tasks))
  | .countByStates states workerId =>
    settle db ((Sqlite.countByStates db states workerId).map fun n => (db, .counted n))
  | .markRecovering now order =>
    settle db ((Sqlite.markRecovering c order.val db now).map fun x => (x.1, .listed x.2))
  | .ping now => settle db ((Sqlite.ping db now).map fun db => (db, .nothing))

def recordCall (st : Store) : StoreCall → Store × Reply
  | .reopen _ | .ping _ => (st, .ok .nothing)
  | .upsert task => settle st ((st.upsert task).map fun st => (st, .nothing))
  | .createOrGet task =>
    settle st ((st.createOrGet task).map fun x => (x.1, .created x.2.1 x.2.2))
  | .get taskId => (st, .ok (.found (st.get taskId)))
  | .getByIdempotencyKey key => (st, .ok (.found (st.getByIdempotencyKey key)))
  | .listByStates states _ => (st, .ok (.listed (st.listByStates states)))
  | .countByStates states workerId => (st, .ok (.counted (st.countByStates states workerId)))
  | .markRecovering now _ =>
    settle st ((World.markRecovering { World.empty with store := st } now
      (st.listByStates Store.recoverableStates)).map fun x => (x.1.store, .listed x.2))

/-- One call after the other, with what each returned or raised. -/
def replies {σ : Type} (call : σ → StoreCall → σ × Reply) (s : σ) : List StoreCall → σ × List Reply
  | [] => (s, [])
  | first :: rest =>
    let after := replies call (call s first).1 rest
    (after.1, (call s first).2 :: after.2)

inductive Agrees : Reply → Reply → Prop
  | same (reply : Reply) : Agrees reply reply
  | listed {tasks tasks' : List TaskRecord} (h : tasks.Perm tasks') :
    Agrees (.ok (.listed tasks)) (.ok (.listed tasks'))

/-- The records that a call hands over can be written. -/
def StoreCall.Storable (c : Codec) : StoreCall → Prop
  | .upsert task | .createOrGet task => Sqlite.Storable c task
  | _ => True

variable {c : Codec} {db db' : Database} {st st' : Store} {task : TaskRecord}

/-- The same outcome on both sides, and nothing else written. -/
inductive Outcome (c : Codec) (db : Database) : Except PyExc Database → Except PyExc Store → Prop
  | ok {db' : Database} {st' : Store} (hready : Ready c db' st')
    (hother : ∀ table, table ≠ "tasks" → db'.tables table = db.tables table) :
    Outcome c db (.ok db') (.ok st')
  | error (exc : PyExc) : Outcome c db (.error exc) (.error exc)

theorem Ready.on (h : Ready c db st) {f : Relation → Except Error Relation} {x : Except PyExc Store}
    (hm : ∀ t, Current c t st → Matches c (f t) x) :
    Outcome c db ((db.on "tasks" f).mapError pyExc) x := by
  obtain ⟨t, ht, hcurrent⟩ := h.current
  have hmatch := hm t hcurrent
  cases hf : f t with
  | ok t' =>
    rw [Database.on_ok ht hf]
    rw [hf] at hmatch
    cases x with
    | ok st' =>
      exact .ok ⟨⟨t', Database.put_self t', hmatch⟩, h.indexed⟩ fun table hne =>
        Database.put_other hne t'
    | error exc => exact hmatch.elim
  | error e =>
    rw [Database.on_error ht hf]
    rw [hf] at hmatch
    cases x with
    | ok st' => exact hmatch.elim
    | error exc => exact hmatch ▸ .error _

theorem upsert_outcome (h : Ready c db st) (hs : Storable c task) :
    Outcome c db (upsert c db task) (st.upsert task) :=
  h.on fun _ hcurrent => upsert_matches hcurrent hs

theorem insert_outcome (h : Ready c db st) (hs : Storable c task) :
    Outcome c db (execute db (.insert "tasks" (params c task))) (st.insert task) :=
  h.on fun _ hcurrent => insert_matches hcurrent hs

/-- Stores with the same ids in the same order that read the same are the same. -/
theorem store_ext (hids : st.rows.map TaskRecord.taskId = st'.rows.map TaskRecord.taskId)
    (hget : ∀ id, st.get id = st'.get id) : st = st' := by
  have hrows : st.rows = st'.rows := by
    refine List.ext_getElem (by simpa using congrArg List.length hids) fun i hi hi' => ?_
    have hid : st.rows[i].taskId = st'.rows[i].taskId := by
      have := List.getElem_of_eq hids (by simpa using hi)
      simpa using this
    have h₁ := Store.get_of_mem (List.getElem_mem hi)
    have h₂ := Store.get_of_mem (List.getElem_mem hi')
    rw [hget, hid, h₂] at h₁
    exact (Option.some.inj h₁).symm
  cases st
  cases st'
  cases hrows
  rfl

theorem storable_markRecovering (now : String) (h : Storable c task) :
    Storable c (Store.markRecovering task now) := h

theorem map_taskId_upsert (h : st.get task.taskId ≠ none) (hup : st.upsert task = .ok st') :
    st'.rows.map TaskRecord.taskId = st.rows.map TaskRecord.taskId := by
  obtain ⟨old, hold⟩ := Option.ne_none_iff_exists'.mp h
  rw [Store.upsert_rows_keep hold hup]
  exact Table.map_key_replace

theorem get_ne_none_iff {id : String} :
    st.get id ≠ none ↔ id ∈ st.rows.map TaskRecord.taskId := by
  constructor
  · intro h
    obtain ⟨r, hr⟩ := Option.ne_none_iff_exists'.mp h
    obtain ⟨hmem, rfl⟩ := Store.mem_of_get hr
    exact List.mem_map_of_mem hmem
  · intro h
    obtain ⟨r, hr, rfl⟩ := List.mem_map.mp h
    rw [Store.get_of_mem hr]
    exact Option.some_ne_none r

theorem markRecoveringLoop_outcome {now : String} {tasks updated : List TaskRecord} {w w' : World}
    (h : Ready c db w.store) (hs : ∀ task ∈ tasks, Storable c task)
    (hrows : ∀ task ∈ tasks, w.store.get task.taskId ≠ none)
    (hloop : w.markRecovering now tasks = .ok (w', updated)) :
    ∃ db', markRecoveringLoop c db now tasks = .ok (db', updated) ∧ Ready c db' w'.store ∧
      (∀ table, table ≠ "tasks" → db'.tables table = db.tables table) ∧
      w'.store.rows.map TaskRecord.taskId = w.store.rows.map TaskRecord.taskId := by
  induction tasks generalizing db w updated with
  | nil =>
    cases hloop
    exact ⟨db, rfl, h, fun _ _ => rfl, rfl⟩
  | cons task rest ih =>
    obtain ⟨htask, hrest⟩ := List.forall_mem_cons.mp hs
    obtain ⟨hrow, hrows⟩ := List.forall_mem_cons.mp hrows
    unfold World.markRecovering at hloop
    unfold markRecoveringLoop
    split at hloop
    · next hp =>
      obtain ⟨⟨w₁, updated₁⟩, hloop₁, hloop⟩ := bind_eq_ok hloop
      cases hloop
      obtain ⟨db', hdb, hready, hother, hids⟩ := ih h hrest hrows hloop₁
      rw [if_pos hp, hdb]
      exact ⟨db', rfl, hready, hother, hids⟩
    · next hp =>
      obtain ⟨w₁, hup, hloop⟩ := bind_eq_ok hloop
      obtain ⟨⟨w₂, updated₂⟩, hloop₂, hloop⟩ := bind_eq_ok hloop
      cases hloop
      have hout := upsert_outcome h (storable_markRecovering now htask)
      unfold World.upsert at hup
      cases hstore : w.store.upsert (Store.markRecovering task now) with
      | error exc =>
        rw [hstore] at hup
        cases hup
      | ok st₁ =>
        rw [hstore] at hup hout
        cases hup
        have hmarked : w.store.get (Store.markRecovering task now).taskId ≠ none := hrow
        have hids₁ := map_taskId_upsert hmarked hstore
        cases hdb₁ : upsert c db (Store.markRecovering task now) with
        | error exc =>
          rw [hdb₁] at hout
          cases hout
        | ok db₁ =>
          rw [hdb₁] at hout
          obtain ⟨hready₁, hother₁⟩ := hout
          obtain ⟨db', hdb, hready, hother, hids⟩ := ih hready₁ hrest (fun t ht => by
            rw [World.write, get_ne_none_iff, hids₁, ← get_ne_none_iff]
            exact hrows t ht) hloop₂
          rw [if_neg hp]
          refine ⟨db', ?_, hready, fun table hne => (hother table hne).trans (hother₁ table hne),
            hids.trans hids₁⟩
          simp only [hdb₁, hdb, bind, Except.bind]

theorem markRecovering_perm {now : String} {tasks tasks' updated : List TaskRecord} {w w' : World}
    (hperm : tasks'.Perm tasks) (hnodup : (tasks.map TaskRecord.taskId).Nodup)
    (hrows : ∀ t ∈ tasks, w.store.get t.taskId = some t ∧ t.state ∉ terminalStates)
    (hloop : w.markRecovering now tasks = .ok (w', updated)) :
    ∃ w'' updated', w.markRecovering now tasks' = .ok (w'', updated') ∧ updated'.Perm updated ∧
      ∀ id, w''.store.get id = w'.store.get id := by
  -- The records have different ids, so each is rewritten once in any order.
  have hids := hperm.map TaskRecord.taskId
  obtain ⟨w₁, hloop₁, -, hin₁, hout₁⟩ := World.markRecovering_ok now tasks w hnodup hrows
  obtain ⟨w₂, hloop₂, -, hin₂, hout₂⟩ := World.markRecovering_ok now tasks' w
    (hids.nodup_iff.mpr hnodup) fun t ht => hrows t (hperm.mem_iff.mp ht)
  rw [hloop₁] at hloop
  cases hloop
  refine ⟨w₂, _, hloop₂, hperm.map _, fun id => ?_⟩
  by_cases hid : id ∈ tasks.map TaskRecord.taskId
  · obtain ⟨t, ht, rfl⟩ := List.mem_map.mp hid
    rw [hin₁ t ht, hin₂ t (hperm.mem_iff.mpr ht)]
  · rw [hout₁ id hid, hout₂ id fun h => hid (hids.mem_iff.mp h)]

def Probe (db : Database) : Prop :=
  ∀ t, db.tables "readiness_probe" = some t → t.columns = probeColumns

theorem upsert_probe {t : Relation} (hc : t.columns = probeColumns) (now : String) :
    ∃ t', t.upsert "id" ["updated_at"] [("id", .integer 1), ("updated_at", .text now.toList)] =
      .ok t' ∧ t'.columns = probeColumns := by
  have hkey : ∃ column ∈ t.columns, column.name = "id" ∧ column.unique = true :=
    ⟨⟨"id", false, true, .null⟩, hc ▸ List.mem_cons_self, rfl, rfl⟩
  have hknown : unknown t.columns ([("id", Value.integer 1),
      ("updated_at", Value.text now.toList)].map Prod.fst) = none := by
    rw [hc]
    rfl
  have hfilled : ∀ row : Row, ∀ column ∈ t.columns, column.notNull = true →
      (row column.name).held ≠ none := by
    intro row column hmem hnull
    rw [hc] at hmem
    simp only [probeColumns, List.mem_cons, List.not_mem_nil, or_false] at hmem
    rcases hmem with rfl | rfl <;> cases hnull
  have hviolation : ∀ (others : List Row) (row : Row), violation t.columns others row =
      if others.any (fun r => (r "id").equals (row "id")) then some (.unique "id") else none := by
    intro others row
    rw [violation_of_filled (hfilled row), hc]
    simp only [probeColumns, names, List.filter_cons, List.filter_nil, if_true, if_false,
      Bool.false_eq_true, List.map_cons, List.map_nil, List.find?_cons, List.find?_nil]
    split
    · next h => rw [if_pos h, Option.map_some]
    · next h => rw [h, if_neg Bool.false_ne_true, Option.map_none]
  generalize hgiven : [("id", Value.integer 1), ("updated_at", Value.text now.toList)] = given at *
  have hfull := hviolation [] (complete t.columns given)
  by_cases hold : ∃ row ∈ t.rows, (row "id").equals (complete t.columns given "id") = true
  · obtain ⟨row, hrow, hsame⟩ := hold
    have hmerged : violation t.columns
        (t.rows.filter fun r => decide ((r "id").held ≠ (row "id").held))
        (Relation.merge ["updated_at"] row (complete t.columns given)) = none := by
      rw [hviolation, if_neg]
      rw [List.any_eq_true]
      rintro ⟨r, hr, he⟩
      have hne := of_decide_eq_true (List.mem_filter.mp hr).2
      unfold Value.equals at he
      exact hne (of_decide_eq_true he).2
    obtain ⟨t', ht', hcolumns, -⟩ :=
      Relation.upsert_accepted hkey hknown hfull hrow hsame hmerged
    exact ⟨t', ht', hcolumns.trans hc⟩
  · have hnone : ∀ row ∈ t.rows, (row "id").equals (complete t.columns given "id") = false :=
      fun row hrow => Bool.eq_false_iff.mpr fun he => hold ⟨row, hrow, he⟩
    rw [Relation.upsert_new hkey hknown hfull hnone]
    obtain ⟨t', ht', hcolumns, -⟩ := Relation.insert_accepted hknown (by
      rw [hviolation, if_neg]
      rw [List.any_eq_true]
      exact hold)
    exact ⟨t', ht', hcolumns.trans hc⟩

theorem ping_ok (h : Probe db) (now : String) :
    ∃ db', ping db now = .ok db' ∧ Probe db' ∧
      (∀ table, table ≠ "readiness_probe" → db'.tables table = db.tables table) ∧
      db'.indexes = db.indexes := by
  obtain ⟨db₁, t, hcreate, ht, hc, hother, hindexes⟩ : ∃ db₁ t,
      db.exec (.createTable "readiness_probe" probeColumns) = .ok db₁ ∧
        db₁.tables "readiness_probe" = some t ∧ t.columns = probeColumns ∧
        (∀ table, table ≠ "readiness_probe" → db₁.tables table = db.tables table) ∧
        db₁.indexes = db.indexes := by
    cases ht : db.tables "readiness_probe" with
    | some t => exact ⟨db, t, Database.exec_createTable_old ht, ht, h t ht, fun _ _ => rfl, rfl⟩
    | none =>
      obtain ⟨t, hexec, hc, -⟩ := Database.exec_createTable_new ht
        (show (names probeColumns).Nodup by decide)
      exact ⟨_, t, hexec, Database.put_self t, hc, fun table hne => Database.put_other hne t, rfl⟩
  obtain ⟨t', hup, hc'⟩ := upsert_probe hc now
  refine ⟨db₁.put "readiness_probe" t', ?_, ?_, ?_, hindexes⟩
  · have hexec := Database.on_ok (f := fun t => t.upsert "id" ["updated_at"]
      [("id", .integer 1), ("updated_at", .text now.toList)]) ht hup
    unfold ping execute
    rw [hcreate]
    exact congrArg (Except.mapError pyExc) hexec
  · intro t ht
    rw [Database.put_self] at ht
    cases ht
    exact hc'
  · intro table hne
    rw [Database.put_other hne, hother table hne]

/-- The database of a store, with the records that it stands for. -/
structure Backs (c : Codec) (db : Database) (st : Store) : Prop where
  ready : Ready c db st
  storable : ∀ r ∈ st.rows, Storable c r
  probe : Probe db

theorem storable_upsert (h : ∀ r ∈ st.rows, Storable c r) (hs : Storable c task)
    (hup : st.upsert task = .ok st') : ∀ r ∈ st'.rows, Storable c r := by
  intro r hr
  cases hget : st.get task.taskId with
  | none =>
    rw [Store.upsert_of_get_none hget] at hup
    rw [(Store.insert_ok hup).2.2] at hr
    rcases List.mem_append.mp hr with hold | hnew
    · exact h r hold
    · rw [List.mem_singleton.mp hnew]
      exact hs
  | some old =>
    rw [Store.upsert_rows_keep hget hup] at hr
    obtain ⟨x, hx, rfl⟩ := List.mem_map.mp hr
    split
    · exact hs
    · exact h x hx

theorem Outcome.backs {x : Except PyExc Database} {y : Except PyExc Store} (h : Outcome c db x y)
    (hb : Backs c db st) (hs : ∀ st', y = .ok st' → ∀ r ∈ st'.rows, Storable c r)
    (returned : Returned) :
    Backs c (settle db (x.map fun db => (db, returned))).1
        (settle st (y.map fun st => (st, returned))).1 ∧
      Agrees (settle db (x.map fun db => (db, returned))).2
        (settle st (y.map fun st => (st, returned))).2 := by
  cases h with
  | ok hready hother =>
    refine ⟨⟨hready, hs _ rfl, fun t ht => hb.probe t ?_⟩, .same _⟩
    exact (hother "readiness_probe" (by decide)).symm.trans ht
  | error exc => exact ⟨hb, .same _⟩

theorem createOrGet_agrees (h : Backs c db st) (hs : Storable c task) :
    Backs c (databaseCall c db (.createOrGet task)).1 (recordCall st (.createOrGet task)).1 ∧
      Agrees (databaseCall c db (.createOrGet task)).2 (recordCall st (.createOrGet task)).2 := by
  obtain ⟨t, ht, hcurrent⟩ := h.ready.current
  have hmap : ∀ {σ : Type} (x : Except PyExc σ),
      ((x.map fun s => (s, task, true)).map fun x => (x.1, Returned.created x.2.1 x.2.2)) =
        x.map fun s => (s, .created task true) := by
    intro σ x
    cases x <;> rfl
  have hupsert := (upsert_outcome h.ready hs).backs h
    (fun st' hup => storable_upsert h.storable hs hup) (.created task true)
  simp only [databaseCall, recordCall]
  unfold createOrGet Store.createOrGet
  cases hkey : task.idempotencyKey with
  | none =>
    simp only [hmap]
    exact hupsert
  | some key =>
    simp only
    split
    · simp only [hmap]
      exact hupsert
    · rw [getByIdempotencyKey_eq ht hcurrent]
      cases st.getByIdempotencyKey key with
      | some existing => exact ⟨h, .same _⟩
      | none =>
        simp only [bind, Except.bind, hmap]
        refine (insert_outcome h.ready hs).backs h (fun st' hins r hr => ?_) _
        rw [(Store.insert_ok hins).2.2] at hr
        rcases List.mem_append.mp hr with hold | hnew
        · exact h.storable r hold
        · rw [List.mem_singleton.mp hnew]
          exact hs

theorem markRecovering_agrees (h : Backs c db st) (now : String) (order : Arrangement) :
    Backs c (databaseCall c db (.markRecovering now order)).1
        (recordCall st (.markRecovering now order)).1 ∧
      Agrees (databaseCall c db (.markRecovering now order)).2
        (recordCall st (.markRecovering now order)).2 := by
  obtain ⟨t, ht, hcurrent⟩ := h.ready.current
  obtain ⟨rs, hrs, hperm⟩ := listByStates_eq ht hcurrent order.property Store.recoverableStates
  generalize hw : ({ World.empty with store := st } : World) = w
  have hstore : w.store = st := by rw [← hw]
  have hmem : ∀ r ∈ st.listByStates Store.recoverableStates,
      w.store.get r.taskId = some r ∧ r.state ∉ terminalStates := by
    intro r hr
    rw [← hstore] at hr
    exact (mem_recoverable r).mp hr
  have hnodup : ((st.listByStates Store.recoverableStates).map TaskRecord.taskId).Nodup :=
    hstore ▸ recoverable_nodup w
  obtain ⟨w₁, hloop₁, -, hin, hout⟩ := World.markRecovering_ok now _ w hnodup hmem
  obtain ⟨w₂, updated, hloop₂, hupdated, hget⟩ := markRecovering_perm hperm hnodup hmem hloop₁
  obtain ⟨db', hdb, hready, hother, hids₂⟩ := markRecoveringLoop_outcome (hstore ▸ h.ready)
    (fun r hr => h.storable r (List.mem_filter.mp (hperm.mem_iff.mp hr)).1)
    (fun r hr => by rw [(hmem r (hperm.mem_iff.mp hr)).1]; exact Option.some_ne_none r) hloop₂
  obtain ⟨-, -, -, -, hids₁⟩ := markRecoveringLoop_outcome (hstore ▸ h.ready)
    (fun r hr => h.storable r (List.mem_filter.mp hr).1)
    (fun r hr => by rw [(hmem r hr).1]; exact Option.some_ne_none r) hloop₁
  have hsame : w₂.store = w₁.store := store_ext (hids₂.trans hids₁.symm) hget
  simp only [databaseCall, recordCall, markRecovering, hrs, bind, Except.bind, hdb, hw, hloop₁,
    Except.map, settle]
  refine ⟨⟨hsame ▸ hready, ?_, ?_⟩, .listed hupdated⟩
  · intro r hr
    have hr' := Store.get_of_mem hr
    by_cases hid : r.taskId ∈ (st.listByStates Store.recoverableStates).map TaskRecord.taskId
    · obtain ⟨x, hx, he⟩ := List.mem_map.mp hid
      have hmarked := hin x hx
      rw [he] at hmarked
      rw [Option.some.inj (hr'.symm.trans hmarked)]
      unfold marked
      split
      · exact h.storable x (List.mem_filter.mp hx).1
      · exact storable_markRecovering now (h.storable x (List.mem_filter.mp hx).1)
    · rw [hout _ hid, hstore] at hr'
      exact h.storable r (Store.mem_of_get hr').1
  · intro t' ht'
    exact h.probe t' ((hother "readiness_probe" (by decide)).symm.trans ht')

/-- A call does to the database what it does to the records, and answers the same. -/
theorem call_agrees (h : Backs c db st) (call : StoreCall) (hs : call.Storable c) :
    Backs c (databaseCall c db call).1 (recordCall st call).1 ∧
      Agrees (databaseCall c db call).2 (recordCall st call).2 := by
  obtain ⟨t, ht, hcurrent⟩ := h.ready.current
  cases call with
  | reopen crashes =>
    simp only [databaseCall, h.ready.reopen_eq]
    exact ⟨h, .same _⟩
  | upsert task =>
    exact (upsert_outcome h.ready hs).backs h (fun st' hup => storable_upsert h.storable hs hup) _
  | createOrGet task => exact createOrGet_agrees h hs
  | get taskId =>
    simp only [databaseCall, get_eq ht hcurrent]
    exact ⟨h, .same _⟩
  | getByIdempotencyKey key =>
    simp only [databaseCall, getByIdempotencyKey_eq ht hcurrent]
    exact ⟨h, .same _⟩
  | listByStates states order =>
    obtain ⟨rs, hrs, hperm⟩ := listByStates_eq ht hcurrent order.property states
    simp only [databaseCall, hrs]
    exact ⟨h, .listed hperm⟩
  | countByStates states workerId =>
    simp only [databaseCall, countByStates_eq ht hcurrent]
    exact ⟨h, .same _⟩
  | markRecovering now order => exact markRecovering_agrees h now order
  | ping now =>
    obtain ⟨db', hping, hprobe, hother, hindexes⟩ := ping_ok h.probe now
    simp only [databaseCall, hping]
    refine ⟨⟨⟨⟨t, ?_, hcurrent⟩, ?_⟩, h.storable, hprobe⟩, .same _⟩
    · exact (hother "tasks" (by decide)).trans ht
    · exact fun index hi => hindexes.symm ▸ h.ready.indexed index hi

theorem replies_agree (h : Backs c db st) (calls : List StoreCall)
    (hs : ∀ call ∈ calls, call.Storable c) :
    Backs c (replies (databaseCall c) db calls).1 (replies recordCall st calls).1 ∧
      List.Forall₂ Agrees (replies (databaseCall c) db calls).2 (replies recordCall st calls).2 := by
  induction calls generalizing db st with
  | nil => exact ⟨h, .nil⟩
  | cons call rest ih =>
    obtain ⟨hfirst, hrest⟩ := List.forall_mem_cons.mp hs
    obtain ⟨hbacks, hagrees⟩ := call_agrees h call hfirst
    obtain ⟨hlast, hall⟩ := ih hbacks hrest
    exact ⟨hlast, .cons hagrees hall⟩

/-- Whatever version wrote the database and wherever processes died while they opened it,
the calls that follow are answered as the record store answers them. -/
theorem store_calls_agree (h : Older c db st) (hstored : ∀ r ∈ st.rows, Storable c r)
    (hprobe : Probe db) (crashes : List ℕ) (calls : List StoreCall)
    (hs : ∀ call ∈ calls, call.Storable c) :
    Backs c (replies (databaseCall c) db (.reopen crashes :: calls)).1
        (replies recordCall st (.reopen crashes :: calls)).1 ∧
      List.Forall₂ Agrees (replies (databaseCall c) db (.reopen crashes :: calls)).2
        (replies recordCall st (.reopen crashes :: calls)).2 := by
  obtain ⟨db', hopen, hready, hother⟩ := reopen_ready h crashes
  have hfirst : databaseCall c db (.reopen crashes) = (db', .ok .nothing) := by
    simp only [databaseCall, hopen]
    rfl
  have hbacks : Backs c db' st :=
    ⟨hready, hstored, fun t ht => hprobe t ((hother "readiness_probe" (by decide)).symm.trans ht)⟩
  obtain ⟨hlast, hall⟩ := replies_agree hbacks calls hs
  simp only [replies, hfirst]
  exact ⟨hlast, .cons (.same _) hall⟩

namespace Sample

/-- A task for the key that the interrupted one has, and one with a result. -/
def calls : List StoreCall :=
  [.createOrGet (TaskRecord.new "b" "w" "run".toList none (some "k") 30 "t2"),
   .markRecovering "t3" ⟨List.reverse, fun rows => List.reverse_perm rows⟩,
   .upsert { TaskRecord.new "c" "w" "run".toList none none 30 "t4" with
     state := .completed
     result := some (.obj []) },
   .ping "t5",
   .countByStates [.recovering, .completed] (some "w")]

end Sample

theorem store_calls_agree_interrupted :
    List.Forall₂ Agrees
      (replies (databaseCall Sample.codec) Sample.olderDatabase (.reopen [1] :: Sample.calls)).2
      (replies recordCall Sample.olderStore (.reopen [1] :: Sample.calls)).2 := by
  refine (store_calls_agree Sample.older ?_ ?_ [1] Sample.calls ?_).2
  · exact List.forall_mem_singleton.mpr Sample.storable_interrupted
  · intro t ht
    cases ht
  · intro call hcall
    simp only [Sample.calls, List.mem_cons, List.not_mem_nil, or_false] at hcall
    rcases hcall with rfl | rfl | rfl | rfl | rfl
    · intro v hv
      cases hv
    · trivial
    · intro v hv
      cases hv
      exact ⟨by decide, rfl, [], rfl⟩
    · trivial
    · trivial

end Sqlite

end WorkerBridge

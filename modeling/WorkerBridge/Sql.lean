import Mathlib.Data.List.Nodup
import Mathlib.Data.Rat.Defs
import Mathlib.Logic.Function.Basic
import WorkerBridge.Table

namespace Sql

inductive Value
  | null
  | integer (n : ℤ)
  | real (q : ℚ)
  | text (s : List Char)
  deriving DecidableEq

/-- `NULL` is no value: it equals nothing, and a unique column may have many of it. -/
def Value.held : Value → Option Value
  | null => none
  | value => some value

/-- `a = b` in a query, which `NULL` never meets. -/
def Value.equals (a b : Value) : Bool := decide (a.held ≠ none ∧ a.held = b.held)

theorem Value.equals_eq_false {a b : Value} :
    a.equals b = false ↔ (b.held ≠ none → a.held ≠ b.held) := by
  unfold equals
  rw [decide_eq_false_iff_not]
  constructor
  · exact fun h hb he => h ⟨he.symm ▸ hb, he⟩
  · exact fun h hab => h (hab.2 ▸ hab.1) hab.2

structure Column where
  name : String
  notNull : Bool
  unique : Bool
  initial : Value
  deriving DecidableEq

inductive Error
  | noSuchTable (table : String)
  | noSuchColumn (column : String)
  | duplicateColumn (column : String)
  | cannotAdd (column : String)
  | noConstraint (column : String)
  | notNull (column : String)
  | unique (column : String)
  deriving DecidableEq

abbrev Row := String → Value

def names (columns : List Column) : List String := columns.map Column.name

/-- The rows of a table, in the order they were inserted. -/
structure Relation where
  columns : List Column
  rows : List Row
  named : (names columns).Nodup
  filled : ∀ row ∈ rows, ∀ c ∈ columns, c.notNull = true → (row c.name).held ≠ none
  distinct : ∀ c ∈ columns, c.unique = true → Table.Unique (fun row => (row c.name).held) rows

/-- The row of an `INSERT` that names the columns of `given`. -/
def complete (columns : List Column) (given : List (String × Value)) : Row := fun name =>
  match columns.find? fun c => decide (c.name = name) with
  | some c => (given.lookup name).getD c.initial
  | none => .null

/-- The first column named that the table does not have. -/
def unknown (columns : List Column) (named : List String) : Option String :=
  named.find? fun name => decide (name ∉ names columns)

/-- The columns without a value are looked for before those with another row's. -/
def violation (columns : List Column) (others : List Row) (row : Row) : Option Error :=
  match columns.find? fun c => c.notNull && decide ((row c.name).held = none) with
  | some c => some (.notNull c.name)
  | none =>
    (columns.find? fun c => c.unique && others.any fun r => (r c.name).equals (row c.name)).map
      fun c => .unique c.name

variable {columns : List Column} {others rows : List Row} {row : Row} {name : String}

theorem violation_eq_none : violation columns others row = none ↔
    (∀ c ∈ columns, c.notNull = true → (row c.name).held ≠ none) ∧
    ∀ c ∈ columns, c.unique = true → ∀ r ∈ others, (row c.name).held ≠ none →
      (r c.name).held ≠ (row c.name).held := by
  unfold violation
  split
  · next c hfind =>
    have hnull := List.find?_some hfind
    rw [Bool.and_eq_true, decide_eq_true_iff] at hnull
    refine iff_of_false (by simp) fun h => ?_
    exact h.1 c (List.mem_of_find?_eq_some hfind) hnull.1 hnull.2
  · next hnone =>
    rw [Option.map_eq_none_iff, List.find?_eq_none]
    rw [List.find?_eq_none] at hnone
    constructor
    · intro h
      refine ⟨fun c hc hn he => hnone c hc (by simp [hn, he]), fun c hc hu r hr => ?_⟩
      rw [← Value.equals_eq_false, ← Bool.not_eq_true]
      intro he
      apply h c hc
      rw [hu, Bool.true_and, List.any_eq_true]
      exact ⟨r, hr, he⟩
    · intro h c hc hclash
      rw [Bool.and_eq_true, List.any_eq_true] at hclash
      obtain ⟨hu, r, hr, he⟩ := hclash
      have hne := Value.equals_eq_false.mpr (h.2 c hc hu r hr)
      rw [he] at hne
      cases hne

theorem unique_replace {u key : Row → Option Value} {old new : Row} (hu : Table.Unique u rows)
    (hkey : Table.Unique key rows) (hold : key old ≠ none)
    (hfree : ∀ r ∈ rows, key r ≠ key old → u new ≠ none → u r ≠ u new) :
    Table.Unique u (rows.map fun r => if key r = key old then new else r) := by
  -- The row that is replaced is the only one with its key.
  rw [Table.Unique, List.pairwise_map]
  refine (List.Pairwise.and hu hkey).imp_of_mem ?_
  intro a b ha hb hab
  by_cases hak : key a = key old
  · have hbk : key b ≠ key old := by
      rw [← hak]
      exact fun h => hab.2 (hak.symm ▸ hold) h.symm
    rw [if_pos hak, if_neg hbk]
    exact fun hne he => hfree b hb hbk hne he.symm
  · rw [if_neg hak]
    by_cases hbk : key b = key old
    · rw [if_pos hbk]
      exact fun hne he => hfree a ha hak (he ▸ hne) he
    · rw [if_neg hbk]
      exact hab.1

theorem violation_of_filled
    (h : ∀ c ∈ columns, c.notNull = true → (row c.name).held ≠ none) (others : List Row) :
    violation columns others row =
      ((names (columns.filter Column.unique)).find? fun name =>
        others.any fun r => (r name).equals (row name)).map .unique := by
  have hnone : columns.find? (fun c => c.notNull && decide ((row c.name).held = none)) = none := by
    rw [List.find?_eq_none]
    intro c hc hnull
    rw [Bool.and_eq_true, decide_eq_true_iff] at hnull
    exact h c hc hnull.1 hnull.2
  unfold violation
  rw [hnone, names, List.find?_map, List.find?_filter, Option.map_map]
  simp only [Function.comp_def, Bool.decide_and, Bool.decide_eq_true]

namespace Relation

variable {t t' : Relation} {given : List (String × Value)} {c : Column}

def insert (t : Relation) (given : List (String × Value)) : Except Error Relation :=
  match unknown t.columns (given.map Prod.fst) with
  | some column => .error (.noSuchColumn column)
  | none =>
    match h : violation t.columns t.rows (complete t.columns given) with
    | some e => .error e
    | none => .ok
      { t with
        rows := t.rows ++ [complete t.columns given]
        filled := by
          intro row hrow
          rcases List.mem_append.mp hrow with hold | hnew
          · exact t.filled row hold
          · rw [List.mem_singleton.mp hnew]
            exact (violation_eq_none.mp h).1
        distinct := fun c hc hu => (t.distinct c hc hu).append fun r hr hne =>
          (violation_eq_none.mp h).2 c hc hu r hr hne }

/-- `DO UPDATE SET`: the columns of `sets` take the values of the new row. -/
def merge (sets : List String) (old new : Row) : Row := fun name =>
  if name ∈ sets then new name else old name

/-- `INSERT ... ON CONFLICT(key) DO UPDATE SET`, where `key` is a unique column. -/
def upsert (t : Relation) (key : String) (sets : List String) (given : List (String × Value)) :
    Except Error Relation :=
  if hkey : ∃ c ∈ t.columns, c.name = key ∧ c.unique = true then
    match unknown t.columns (given.map Prod.fst) with
    | some column => .error (.noSuchColumn column)
    | none =>
      let row := complete t.columns given
      -- The new row has to have a value where one is needed, whether it is merged or not.
      match violation t.columns [] row with
      | some e => .error e
      | none =>
        match hold : t.rows.find? fun r => (r key).equals (row key) with
        | none => t.insert given
        | some old =>
          let new := merge sets old row
          match h : violation t.columns
            (t.rows.filter fun r => decide ((r key).held ≠ (old key).held)) new with
          | some e => .error e
          | none => .ok
            { t with
              rows := t.rows.map fun r => if (r key).held = (old key).held then new else r
              filled := by
                rintro row' hrow'
                obtain ⟨r, hr, rfl⟩ := List.mem_map.mp hrow'
                split
                · exact (violation_eq_none.mp h).1
                · exact t.filled r hr
              distinct := fun c hc hu => by
                obtain ⟨k, hk, rfl, hku⟩ := hkey
                have hsome := List.find?_some hold
                rw [Value.equals, decide_eq_true_iff] at hsome
                refine unique_replace (t.distinct c hc hu) (t.distinct k hk hku) hsome.1 ?_
                intro r hr hne
                refine (violation_eq_none.mp h).2 c hc hu r ?_
                exact List.mem_filter.mpr ⟨hr, decide_eq_true hne⟩ }
  else .error (.noConstraint key)

/-- `ALTER TABLE ... ADD COLUMN`. -/
def addColumn (t : Relation) (c : Column) : Except Error Relation :=
  if hname : c.name ∈ names t.columns then .error (.duplicateColumn c.name)
  else if hadd : c.unique = true ∨ c.notNull = true ∧ c.initial.held = none then
    .error (.cannotAdd c.name)
  else .ok
    { columns := t.columns ++ [c]
      rows := t.rows.map fun row => Function.update row c.name c.initial
      named := by
        rw [names, List.map_append, List.map_singleton, ← List.concat_eq_append]
        exact t.named.concat hname
      filled := by
        intro row' hrow' d hd hnull
        obtain ⟨row, hrow, rfl⟩ := List.mem_map.mp hrow'
        rcases List.mem_append.mp hd with hold | hnew
        · have hne : d.name ≠ c.name := fun h => hname (h ▸ List.mem_map_of_mem hold)
          rw [Function.update_of_ne hne]
          exact t.filled row hrow d hold hnull
        · obtain rfl := List.mem_singleton.mp hnew
          rw [Function.update_self]
          exact fun h => hadd (Or.inr ⟨hnull, h⟩)
      distinct := by
        intro d hd hu
        rcases List.mem_append.mp hd with hold | hnew
        · rw [Table.Unique, List.pairwise_map]
          have hne : d.name ≠ c.name := fun h => hname (h ▸ List.mem_map_of_mem hold)
          simp only [Function.update_of_ne hne]
          exact t.distinct d hold hu
        · rw [List.mem_singleton.mp hnew] at hu
          exact absurd (Or.inl hu) hadd }

/-- `row[name]` in a row that a query over the table returns. -/
def item (t : Relation) (row : Row) (name : String) : Option Value :=
  if name ∈ names t.columns then some (row name) else none

/-- `SELECT * ... WHERE column = value`, which is no condition that `NULL` meets. -/
def selectWhere (t : Relation) (column : String) (value : Value) : List Row :=
  t.rows.filter fun row => (row column).equals value

theorem lookup_of_mem {value : Value} (hn : (given.map Prod.fst).Nodup)
    (h : (name, value) ∈ given) : given.lookup name = some value := by
  obtain ⟨v, hv⟩ : ∃ v, given.lookup name = some v := by
    rw [← Option.isSome_iff_exists, List.lookup_isSome_iff]
    exact ⟨(name, value), h, by simp⟩
  obtain ⟨l₁, l₂, hl, -⟩ := List.lookup_eq_some_iff.mp hv
  have hmem : (name, v) ∈ given := hl ▸ List.mem_append_right _ List.mem_cons_self
  have heq := List.inj_on_of_nodup_map hn hmem h rfl
  rw [hv, (Prod.mk.inj heq).2]

theorem complete_apply (hn : (names columns).Nodup) (hc : c ∈ columns) :
    complete columns given c.name = (given.lookup c.name).getD c.initial := by
  have hfind : columns.find? (fun d => decide (d.name = c.name)) = some c := by
    obtain ⟨d, hd⟩ : ∃ d, columns.find? (fun d => decide (d.name = c.name)) = some d := by
      rw [← Option.isSome_iff_exists, List.find?_isSome]
      exact ⟨c, hc, decide_eq_true rfl⟩
    have hname := List.find?_some hd
    rw [decide_eq_true_iff] at hname
    rw [hd, List.inj_on_of_nodup_map hn (List.mem_of_find?_eq_some hd) hc hname]
  unfold complete
  rw [hfind]

theorem insert_refused {e : Error} (hknown : unknown t.columns (given.map Prod.fst) = none)
    (h : violation t.columns t.rows (complete t.columns given) = some e) :
    t.insert given = .error e := by
  unfold insert
  rw [hknown]
  simp only
  split
  · next e' he =>
    rw [h] at he
    cases he
    rfl
  · next he =>
    rw [h] at he
    cases he

theorem insert_accepted (hknown : unknown t.columns (given.map Prod.fst) = none)
    (h : violation t.columns t.rows (complete t.columns given) = none) :
    ∃ t', t.insert given = .ok t' ∧ t'.columns = t.columns ∧
      t'.rows = t.rows ++ [complete t.columns given] := by
  unfold insert
  rw [hknown]
  simp only
  split
  · next e' he =>
    rw [h] at he
    cases he
  · exact ⟨_, rfl, rfl, rfl⟩

section Upsert

variable {key : String} {sets : List String} {old : Row}

theorem upsert_new (hkey : ∃ c ∈ t.columns, c.name = key ∧ c.unique = true)
    (hknown : unknown t.columns (given.map Prod.fst) = none)
    (hfull : violation t.columns [] (complete t.columns given) = none)
    (h : ∀ r ∈ t.rows, (r key).equals (complete t.columns given key) = false) :
    t.upsert key sets given = t.insert given := by
  unfold upsert
  rw [dif_pos hkey, hknown]
  simp only [hfull]
  split
  · rfl
  · next old hold =>
    have hsome := List.find?_some hold
    rw [h old (List.mem_of_find?_eq_some hold)] at hsome
    cases hsome

variable (hkey : ∃ c ∈ t.columns, c.name = key ∧ c.unique = true)
  (hknown : unknown t.columns (given.map Prod.fst) = none)
  (hfull : violation t.columns [] (complete t.columns given) = none)
  (hold : old ∈ t.rows) (hsame : (old key).equals (complete t.columns given key) = true)

include hkey hold hsame in
theorem find_old :
    t.rows.find? (fun r => (r key).equals (complete t.columns given key)) = some old := by
  obtain ⟨c, hc, rfl, hu⟩ := hkey
  cases hfind : t.rows.find? _ with
  | none => exact absurd hsame (List.find?_eq_none.mp hfind old hold)
  | some r =>
    have hsome := List.find?_some hfind
    rw [Value.equals, decide_eq_true_iff] at hsome hsame
    rw [Table.eq_of_unique_eq (t.distinct c hc hu) (List.mem_of_find?_eq_some hfind) hold hsome.1
      (hsome.2.trans hsame.2.symm)]

include hkey hknown hfull hold hsame

theorem upsert_refused {e : Error}
    (h : violation t.columns (t.rows.filter fun r => decide ((r key).held ≠ (old key).held))
      (merge sets old (complete t.columns given)) = some e) :
    t.upsert key sets given = .error e := by
  have hfind := find_old hkey hold hsame
  unfold upsert
  rw [dif_pos hkey, hknown]
  simp only [hfull]
  split
  · next hnone =>
    rw [hfind] at hnone
    cases hnone
  · next old' hold' =>
    rw [hfind] at hold'
    cases hold'
    split
    · next e' he =>
      rw [h] at he
      cases he
      rfl
    · next he =>
      rw [h] at he
      cases he

theorem upsert_accepted
    (h : violation t.columns (t.rows.filter fun r => decide ((r key).held ≠ (old key).held))
      (merge sets old (complete t.columns given)) = none) :
    ∃ t', t.upsert key sets given = .ok t' ∧ t'.columns = t.columns ∧
      t'.rows = t.rows.map fun r =>
        if (r key).held = (old key).held then merge sets old (complete t.columns given) else r := by
  have hfind := find_old hkey hold hsame
  unfold upsert
  rw [dif_pos hkey, hknown]
  simp only [hfull]
  split
  · next hnone =>
    rw [hfind] at hnone
    cases hnone
  · next old' hold' =>
    rw [hfind] at hold'
    cases hold'
    split
    · next e' he =>
      rw [h] at he
      cases he
    · exact ⟨_, rfl, rfl, rfl⟩

end Upsert

theorem addColumn_rows (h : t.addColumn c = .ok t') :
    c.name ∉ names t.columns ∧ t'.columns = t.columns ++ [c] ∧
      t'.rows = t.rows.map fun row => Function.update row c.name c.initial := by
  unfold addColumn at h
  split at h
  · cases h
  · next hname =>
    split at h
    · cases h
    · cases h
      exact ⟨hname, rfl, rfl⟩

theorem exists_addColumn (hname : c.name ∉ names t.columns) (hu : c.unique = false)
    (hnull : c.notNull = true → c.initial.held ≠ none) : ∃ t', t.addColumn c = .ok t' := by
  unfold addColumn
  rw [dif_neg hname, dif_neg]
  · exact ⟨_, rfl⟩
  · rintro (h | h)
    · exact Bool.false_ne_true (hu.symm.trans h)
    · exact hnull h.1 h.2

end Relation

structure Database where
  tables : String → Option Relation
  indexes : List String

namespace Database

def empty : Database := ⟨fun _ => none, []⟩

def put (db : Database) (name : String) (t : Relation) : Database :=
  { db with tables := Function.update db.tables name (some t) }

def on (db : Database) (name : String) (f : Relation → Except Error Relation) :
    Except Error Database :=
  match db.tables name with
  | none => .error (.noSuchTable name)
  | some t => (f t).map (db.put name)

end Database

inductive Statement
  | createTable (name : String) (columns : List Column)
  | createIndex (name table : String) (columns : List String)
  | addColumn (table : String) (column : Column)
  | insert (table : String) (given : List (String × Value))
  | upsert (table key : String) (sets : List String) (given : List (String × Value))

namespace Database

def exec (db : Database) : Statement → Except Error Database
  | .createTable name columns =>
    match db.tables name with
    | some _ => .ok db
    | none =>
      if h : (names columns).Nodup then
        .ok (db.put name ⟨columns, [], h, List.forall_mem_nil _, fun _ _ _ => List.Pairwise.nil⟩)
      else .error (.duplicateColumn name)
  | .createIndex name table columns =>
    if name ∈ db.indexes then .ok db
    else match db.tables table with
      | none => .error (.noSuchTable table)
      | some t =>
        match unknown t.columns columns with
        | some column => .error (.noSuchColumn column)
        | none => .ok { db with indexes := db.indexes ++ [name] }
  | .addColumn table column => db.on table fun t => t.addColumn column
  | .insert table given => db.on table fun t => t.insert given
  | .upsert table key sets given => db.on table fun t => t.upsert key sets given

/-- A script stops at the first statement that fails. -/
def run (db : Database) : List Statement → Except Error Database
  | [] => .ok db
  | statement :: rest => (db.exec statement).bind fun db => db.run rest

variable {db db' : Database} {table : String} {f : Relation → Except Error Relation}
  {t t' : Relation}

@[simp] theorem put_self (t : Relation) : (db.put table t).tables table = some t :=
  Function.update_self ..

@[simp] theorem put_other {other : String} (h : other ≠ table) (t : Relation) :
    (db.put table t).tables other = db.tables other :=
  Function.update_of_ne h ..

theorem on_ok (ht : db.tables table = some t) (h : f t = .ok t') :
    db.on table f = .ok (db.put table t') := by
  unfold on
  rw [ht]
  simp only [h, Except.map]

theorem on_error {e : Error} (ht : db.tables table = some t) (h : f t = .error e) :
    db.on table f = .error e := by
  unfold on
  rw [ht]
  simp only [h, Except.map]

theorem exec_createTable_old {columns : List Column} (ht : db.tables table = some t) :
    db.exec (.createTable table columns) = .ok db := by
  simp only [exec, ht]

theorem exec_createTable_new {columns : List Column} (ht : db.tables table = none)
    (hn : (names columns).Nodup) :
    ∃ t, db.exec (.createTable table columns) = .ok (db.put table t) ∧ t.columns = columns ∧
      t.rows = [] := by
  simp only [exec, ht, dif_pos hn]
  exact ⟨_, rfl, rfl, rfl⟩

theorem exec_createIndex (index : String) {columns : List String} (ht : db.tables table = some t)
    (hc : unknown t.columns columns = none) :
    ∃ db', db.exec (.createIndex index table columns) = .ok db' ∧ db'.tables = db.tables ∧
      index ∈ db'.indexes ∧ ∀ i ∈ db.indexes, i ∈ db'.indexes := by
  simp only [exec]
  split
  · next hin => exact ⟨db, rfl, rfl, hin, fun _ hi => hi⟩
  · simp only [ht, hc]
    exact ⟨_, rfl, rfl, List.mem_append_right _ List.mem_cons_self,
      fun _ hi => List.mem_append_left _ hi⟩

theorem exec_createIndex_old {index : String} {columns : List String} (h : index ∈ db.indexes) :
    db.exec (.createIndex index table columns) = .ok db := by
  simp only [exec, if_pos h]

theorem run_append (ss ss' : List Statement) (db : Database) :
    db.run (ss ++ ss') = (db.run ss).bind fun db => db.run ss' := by
  induction ss generalizing db with
  | nil => rfl
  | cons s ss ih =>
    rw [List.cons_append, run, run]
    cases db.exec s with
    | error e => rfl
    | ok db₁ => exact ih db₁

end Database

end Sql

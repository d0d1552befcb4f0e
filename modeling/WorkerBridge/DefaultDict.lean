import WorkerBridge.Table

structure DefaultDict (κ ν : Type*) where
  items : List (κ × ν)
  distinct : Table.Distinct Prod.fst items

namespace DefaultDict

variable {κ ν : Type*}

def empty : DefaultDict κ ν := ⟨[], List.Pairwise.nil⟩

variable [DecidableEq κ]

omit [DecidableEq κ] in
theorem distinct_of_perm {l l' : List (κ × ν)} (hd : Table.Distinct Prod.fst l) (hp : l'.Perm l) :
    Table.Distinct Prod.fst l' :=
  (hp.pairwise_iff fun h => Ne.symm h).mpr hd

theorem find_of_perm {l l' : List (κ × ν)} (hd : Table.Distinct Prod.fst l) (hp : l'.Perm l)
    (k : κ) : Table.find Prod.fst l' k = Table.find Prod.fst l k := by
  have hd' := distinct_of_perm hd hp
  cases hf : Table.find Prod.fst l k with
  | none => exact Table.find_eq_none.mpr fun r hr => Table.find_eq_none.mp hf r (hp.mem_iff.mp hr)
  | some r =>
    obtain ⟨hr, rfl⟩ := Table.mem_of_find hf
    exact Table.find_of_mem hd' (hp.mem_iff.mpr hr)

theorem flatMap_key {β : Type*} {l : List (κ × ν)} (hd : Table.Distinct Prod.fst l)
    (f : κ × ν → List β) (k : κ) :
    (l.flatMap fun item => if item.1 = k then f item else []) =
      (Table.find Prod.fst l k).elim [] f := by
  induction l with
  | nil => rfl
  | cons item l ih =>
    obtain ⟨hne, hl⟩ := List.pairwise_cons.mp hd
    rw [List.flatMap_cons, ih hl]
    by_cases hk : item.1 = k
    · have hnone : Table.find Prod.fst l k = none :=
        Table.find_eq_none.mpr fun r hr he => hne r hr (hk.trans he.symm)
      rw [if_pos hk, hnone, Option.elim_none, List.append_nil]
      simp [Table.find, hk]
    · rw [if_neg hk, List.nil_append]
      simp [Table.find, hk]

variable (d : DefaultDict κ ν) (k : κ)

def find : Option (κ × ν) := Table.find Prod.fst d.items k

def contains : Bool := (d.find k).isSome

variable [Zero ν]

def get : ν := (d.find k).elim 0 Prod.snd

/-- `d[k] = f(d[k])`. -/
def modify (f : ν → ν) : DefaultDict κ ν :=
  match h : d.find k with
  | some item => ⟨Table.replace Prod.fst d.items (k, f item.2), d.distinct.replace⟩
  | none => ⟨d.items ++ [(k, f 0)], d.distinct.append h⟩

/-- `d[k]` as an expression. -/
def read : ν × DefaultDict κ ν := (d.get k, d.modify k id)

variable {d k}

theorem find_modify (d : DefaultDict κ ν) (k k' : κ) (f : ν → ν) :
    (d.modify k f).find k' = if k = k' then some (k, f (d.get k)) else d.find k' := by
  unfold modify
  split
  · next item h =>
    have hget : d.get k = item.2 := by rw [get, h, Option.elim_some]
    show Table.find Prod.fst (Table.replace Prod.fst d.items (k, f item.2)) k' = _
    rw [Table.find_replace, hget]
    by_cases hk : k = k'
    · subst hk
      rw [if_pos rfl, if_pos rfl]
      show (d.find k).map _ = _
      rw [h, Option.map_some]
    · rw [if_neg (Ne.symm hk), if_neg hk]
      rfl
  · next h =>
    have hget : d.get k = 0 := by rw [get, h, Option.elim_none]
    show Table.find Prod.fst (d.items ++ [(k, f 0)]) k' = _
    rw [Table.find_append, hget]
    by_cases hk : k = k'
    · subst hk
      rw [if_pos rfl, if_pos rfl]
      show (d.find k).or _ = _
      rw [h, Option.none_or]
    · rw [if_neg hk, if_neg hk, Option.or_none]
      rfl

theorem get_modify (d : DefaultDict κ ν) (k k' : κ) (f : ν → ν) :
    (d.modify k f).get k' = if k = k' then f (d.get k) else d.get k' := by
  unfold get
  rw [find_modify]
  split
  · rfl
  · rfl

theorem contains_modify (d : DefaultDict κ ν) (k k' : κ) (f : ν → ν) :
    (d.modify k f).contains k' = (decide (k = k') || d.contains k') := by
  unfold contains
  rw [find_modify]
  by_cases hk : k = k' <;> simp [hk]

theorem get_read (d : DefaultDict κ ν) (k k' : κ) : (d.read k).2.get k' = d.get k' := by
  show (d.modify k id).get k' = _
  rw [get_modify]
  split
  · next hk =>
    rw [hk]
    rfl
  · rfl

end DefaultDict

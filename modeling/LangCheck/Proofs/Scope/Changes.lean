import LangCheck.Proofs.Scope.Table
import Mathlib.Data.List.Basic

/-!
# The life of a table

A table begins empty and then changes: entries are declared, and the entry of a name is edited in
place, where an edit keeps the name (`Table.Change`).  A plain list can be changed in the same ways
without any index, by searching it (`Change.onList`).  After any changes the table holds what the list
holds (`toList_ofChanges`), and it answers every question as a search through the list does
(`Indexed.mirrors`); its names are those that were declared, in the order in which they came first
(`names_ofChanges`).
-/

namespace LangCheck.Table

variable {α : Type} [Named α] {t : Table α} {es : List α} {e : α} {name : String}

/-- A change of a table or of a list of entries. -/
inductive Change (α : Type) [Named α] where
  /-- An entry is declared.  If its name is taken, this fails. -/
  | declare (entry : α)
  /-- The entry of a name, if there is one, is edited in place and keeps its name. -/
  | edit (name : String) (change : α → α) (keeps : ∀ e, nameOf e = name → nameOf (change e) = name)

/-- The entries of a list, the first one of a name edited. -/
def editFirst (name : String) (change : α → α) (es : List α) : List α :=
  es.replaceF fun e => if nameOf e = name then some (change e) else none

namespace Change

/-- A table after a change. -/
def onTable (t : Table α) : Change α → Table α
  | .declare e => t.declareOrKeep e
  | .edit name change _ =>
    match t.find? name with
    | some e => t.replace name (change e)
    | none => t

/-- A list of entries after a change: what is declared comes last, unless an entry of its name is there,
and the first entry of an edited name is replaced. -/
def onList (es : List α) : Change α → List α
  | .declare e => if nameOf e ∈ es.map nameOf then es else es ++ [e]
  | .edit name change _ => editFirst name change es

/-- The entry that a change declares. -/
def declared? : Change α → Option α
  | .declare e => some e
  | .edit .. => none

/-- The change that writes an entry over the one of the same name. -/
def write (e : α) : Change α := .edit (nameOf e) (fun _ => e) fun _ _ => rfl

end Change

/-- The table after some changes, if it was empty before. -/
def ofChanges (cs : List (Change α)) : Table α := cs.foldl Change.onTable empty

/-- The list after some changes, if it was empty before. -/
def listOfChanges (cs : List (Change α)) : List α := cs.foldl Change.onList []

lemma ofChanges_append (cs : List (Change α)) (c : Change α) :
    ofChanges (cs ++ [c]) = c.onTable (ofChanges cs) := by
  simp [ofChanges]

lemma listOfChanges_append (cs : List (Change α)) (c : Change α) :
    listOfChanges (cs ++ [c]) = c.onList (listOfChanges cs) := by
  simp [listOfChanges]

lemma ofList_eq_ofChanges (es : List α) : ofList es = ofChanges (es.map .declare) := by
  rw [ofChanges, List.foldl_map]
  rfl

/-! ## The index under changes -/

lemma Indexed.onTable (h : t.Indexed) (c : Change α) : (c.onTable t).Indexed := by
  cases c with
  | declare e => exact h.declareOrKeep e
  | edit name change keeps =>
    rw [Change.onTable]
    split
    · next e hf =>
      rw [h.find?_eq] at hf
      exact h.replace (keeps e (nameOf_of_search hf))
    · exact h

lemma indexed_ofChanges (cs : List (Change α)) : (ofChanges cs).Indexed := by
  induction cs using List.reverseRecOn with
  | nil => exact indexed_empty
  | append_singleton cs c ih =>
    rw [ofChanges_append]
    exact ih.onTable c

/-- Writing an entry over the one of its name is a replacement. -/
lemma Indexed.onTable_write (h : t.Indexed) (e : α) :
    (Change.write e).onTable t = t.replace (nameOf e) e := by
  rw [Change.write, Change.onTable]
  split
  · rfl
  · next hf =>
    rw [h.find?_eq, search_eq_none_iff, ← h.contains_iff, contains,
      Std.TreeMap.contains_eq_isSome_getElem?, Option.not_isSome_iff_eq_none] at hf
    rw [Table.replace, hf]

/-- The index tells one place for each name, so no two entries have the same. -/
lemma Indexed.nodup_names (h : t.Indexed) : (t.toList.map nameOf).Nodup := by
  rw [List.nodup_iff_getElem?_ne_getElem?]
  intro i j hij hj heq
  have hj' : j < t.entries.size := by simpa [toList] using hj
  have hi' : i < t.entries.size := Nat.lt_trans hij hj'
  have hname : nameOf t.entries[i] = nameOf t.entries[j] := by simpa [toList, hi', hj'] using heq
  have hi := (h _ i).2 ⟨_, Array.getElem?_eq_getElem hi', hname⟩
  have hj := (h _ j).2 ⟨_, Array.getElem?_eq_getElem hj', rfl⟩
  rw [hi] at hj
  exact Nat.ne_of_lt hij (Option.some.inj hj)

/-! ## Editing a list -/

section EditFirst

variable {change : α → α}

lemma editFirst_cons_of_eq (h : nameOf e = name) (es : List α) :
    editFirst name change (e :: es) = change e :: es :=
  List.replaceF_cons_of_some _ (if_pos h)

lemma editFirst_cons_of_ne (h : nameOf e ≠ name) (es : List α) :
    editFirst name change (e :: es) = e :: editFirst name change es :=
  List.replaceF_cons_of_none _ (if_neg h)

lemma editFirst_of_not_mem (h : name ∉ es.map nameOf) : editFirst name change es = es :=
  List.replaceF_of_forall_none fun x hx => if_neg fun hname => h (List.mem_map.2 ⟨x, hx, hname⟩)

/-- Among entries of distinct names, the first of a name is the only one. -/
lemma editFirst_eq_map (hnodup : (es.map nameOf).Nodup) (h : search name es = some e) :
    editFirst name change es = es.map fun x => if nameOf x = name then change e else x := by
  induction es with
  | nil => rfl
  | cons x es ih =>
    rw [List.map_cons, List.nodup_cons] at hnodup
    by_cases hx : nameOf x = name
    · have hxe : x = e := by simpa [search, hx] using h
      have hrest : ∀ y ∈ es, (if nameOf y = name then change e else y) = y := fun y hy =>
        if_neg fun hname => hnodup.1 (List.mem_map.2 ⟨y, hy, hname.trans hx.symm⟩)
      rw [editFirst_cons_of_eq hx, List.map_cons, List.map_congr_left hrest, List.map_id', if_pos hx,
        hxe]
    · have hes : search name es = some e := by simpa [search, hx] using h
      rw [editFirst_cons_of_ne hx, List.map_cons, if_neg hx, ih hnodup.2 hes]

lemma names_editFirst (keeps : ∀ e, nameOf e = name → nameOf (change e) = name) (es : List α) :
    (editFirst name change es).map nameOf = es.map nameOf := by
  induction es with
  | nil => rfl
  | cons x es ih =>
    by_cases hx : nameOf x = name
    · rw [editFirst_cons_of_eq hx, List.map_cons, List.map_cons, keeps x hx, hx]
    · rw [editFirst_cons_of_ne hx, List.map_cons, List.map_cons, ih]

end EditFirst

/-! ## The entries under changes -/

/-- What a table holds changes as the list of its entries does. -/
lemma Indexed.toList_onTable (h : t.Indexed) (c : Change α) :
    (c.onTable t).toList = c.onList t.toList := by
  cases c with
  | declare e =>
    rw [Change.onTable, Change.onList, toList_declareOrKeep]
    exact if_congr h.contains_iff rfl rfl
  | edit name change keeps =>
    rw [Change.onTable, Change.onList]
    split
    · next e hf =>
      rw [h.find?_eq] at hf
      rw [h.toList_replace, editFirst_eq_map h.nodup_names hf]
    · next hf =>
      rw [h.find?_eq, search_eq_none_iff] at hf
      rw [editFirst_of_not_mem hf]

/-- After any changes a table holds what a list without an index holds. -/
theorem toList_ofChanges (cs : List (Change α)) : (ofChanges cs).toList = listOfChanges cs := by
  induction cs using List.reverseRecOn with
  | nil => rfl
  | append_singleton cs c ih =>
    rw [ofChanges_append, listOfChanges_append, (indexed_ofChanges cs).toList_onTable, ih]

lemma eraseDups_append_singleton (names : List String) (name : String) :
    (names ++ [name]).eraseDups =
      if name ∈ names then names.eraseDups else names.eraseDups ++ [name] := by
  by_cases h : name ∈ names <;> simp [List.eraseDups_append, List.removeAll, List.eraseDups_cons, h]

/-- The names of a list after changes are those that were declared, in the order in which they were
declared first. -/
theorem names_listOfChanges (cs : List (Change α)) :
    (listOfChanges cs).map nameOf = ((cs.filterMap Change.declared?).map nameOf).eraseDups := by
  induction cs using List.reverseRecOn with
  | nil => rfl
  | append_singleton cs c ih =>
    rw [listOfChanges_append, List.filterMap_append, List.map_append]
    cases c with
    | edit name change keeps =>
      rw [Change.onList, names_editFirst keeps, ih]
      exact congrArg _ (List.append_nil _).symm
    | declare e =>
      have hmem : nameOf e ∈ (cs.filterMap Change.declared?).map nameOf ↔
          nameOf e ∈ (listOfChanges cs).map nameOf := by
        rw [ih, List.mem_eraseDups]
      refine Eq.trans ?_ (eraseDups_append_singleton _ (nameOf e)).symm
      rw [if_congr hmem rfl rfl, ← ih, Change.onList]
      split
      · rfl
      · exact List.map_append

/-! ## A table and a list -/

/-- A table and a list of entries that answer alike.  Names are distinct, the index tells the place of
each, a look-up is a search, and a declaration fails exactly if its name is taken, in which case the
table stays as it is. -/
structure Mirrors (t : Table α) (es : List α) : Prop where
  toList : t.toList = es
  nodup : (es.map nameOf).Nodup
  place : ∀ name place, t.index[name]? = some place ↔
    ∃ h : place < t.entries.size, nameOf t.entries[place] = name
  find : ∀ name, t.find? name = es.find? (nameOf · == name)
  fails : ∀ e error, t.declare e = .error error ↔
    nameOf e ∈ es.map nameOf ∧ error = ⟨nameOf e⟩
  keeps : ∀ e, nameOf e ∈ es.map nameOf → t.declareOrKeep e = t
  appends : ∀ e, nameOf e ∉ es.map nameOf →
    t.declare e = .ok (t.declareOrKeep e) ∧ (t.declareOrKeep e).toList = es ++ [e]

/-- Any table with a right index answers like its list. -/
theorem Indexed.mirrors (h : t.Indexed) : t.Mirrors t.toList where
  toList := rfl
  nodup := h.nodup_names
  place name place := by
    rw [h name place]
    constructor
    · rintro ⟨e, he, hname⟩
      obtain ⟨hlt, rfl⟩ := Array.getElem?_eq_some_iff.1 he
      exact ⟨hlt, hname⟩
    · rintro ⟨hlt, hname⟩
      exact ⟨_, Array.getElem?_eq_getElem hlt, hname⟩
  find := fun _ => h.find?_eq
  fails e error := by
    rw [← h.contains_iff]
    by_cases hc : t.contains (nameOf e) = true
    · simp [declare_of_contains hc, hc, eq_comm]
    · simp [declare_of_not_contains (Bool.eq_false_iff.2 hc), hc]
  keeps e he := declareOrKeep_of_contains (h.contains_iff.2 he)
  appends e he := by
    have hc : ¬ t.contains (nameOf e) = true := fun hc => he (h.contains_iff.1 hc)
    refine ⟨declare_of_not_contains (Bool.eq_false_iff.2 hc), ?_⟩
    rw [toList_declareOrKeep, if_neg hc]

theorem mirrors_ofChanges (cs : List (Change α)) : (ofChanges cs).Mirrors (listOfChanges cs) := by
  rw [← toList_ofChanges]
  exact (indexed_ofChanges cs).mirrors

end LangCheck.Table

import LangCheck.Proofs.Past
import LangCheck.Scope.Table

/-!
# Tables and the lists that they hold

A table is a list of entries with an index beside it.  As long as the index tells the place of every
name and of no other (`Table.Indexed`), looking a name up in the table is searching the list for its
first entry of that name.  All operations keep the index right, and the table that arises from
declaring the entries of a list one by one (`Table.ofList`) answers like the list itself.
-/

namespace LangCheck.Table

variable {α : Type} [Named α] {t u : Table α} {name other : String} {e : α}

/-- The index of a table tells the place of each name that has an entry, and of no other name. -/
def Indexed (t : Table α) : Prop :=
  ∀ name place, t.index[name]? = some place ↔ ∃ e, t.entries[place]? = some e ∧ nameOf e = name

/-- The first entry of a name in a list. -/
def search (name : String) (es : List α) : Option α := es.find? (nameOf · == name)

lemma search_append (name : String) (es fs : List α) :
    search name (es ++ fs) = (search name es).or (search name fs) := by
  simp [search, List.find?_append]

lemma nameOf_of_search {es : List α} (h : search name es = some e) : nameOf e = name := by
  simpa using List.find?_some h

lemma mem_of_search {es : List α} (h : search name es = some e) : e ∈ es :=
  List.mem_of_find?_eq_some h

lemma search_eq_none_iff {es : List α} :
    search name es = none ↔ name ∉ es.map nameOf := by
  simp [search, List.find?_eq_none]

lemma isSome_search {es : List α} : (search name es).isSome ↔ name ∈ es.map nameOf := by
  rw [Option.isSome_iff_ne_none, ne_eq, search_eq_none_iff, not_not]

/-- Entries that are made from others of the same names are found where these are. -/
lemma search_map {β : Type} [Named β] {h : β → α} (hname : ∀ x, nameOf (h x) = nameOf x)
    (xs : List β) : search name (xs.map h) = (search name xs).map h := by
  rw [search, List.find?_map]
  congr 2
  funext x
  rw [Function.comp_apply, hname]

/-! ## Looking up -/

lemma indexed_empty : (empty : Table α).Indexed := by
  intro name place
  simp [empty]

lemma Indexed.contains_iff (h : t.Indexed) : t.contains name = true ↔ name ∈ t.toList.map nameOf := by
  have hsome : t.contains name = true ↔ ∃ place, t.index[name]? = some place := by
    rw [contains, Std.TreeMap.contains_eq_isSome_getElem?, Option.isSome_iff_exists]
  rw [hsome, List.mem_map]
  constructor
  · rintro ⟨place, hplace⟩
    obtain ⟨e, he, hname⟩ := (h name place).1 hplace
    exact ⟨e, by simpa [toList] using Array.mem_of_getElem? he, hname⟩
  · rintro ⟨e, he, hname⟩
    obtain ⟨place, hplace⟩ := Array.getElem?_of_mem (by simpa [toList] using he)
    exact ⟨place, (h name place).2 ⟨e, hplace, hname⟩⟩

/-- Looking a name up is searching the entries for it. -/
theorem Indexed.find?_eq (h : t.Indexed) : t.find? name = search name t.toList := by
  rcases hs : search name t.toList with _ | e
  · rcases hi : t.index[name]? with _ | place
    · simp [find?, hi]
    · obtain ⟨e, he, hname⟩ := (h name place).1 hi
      refine absurd (search_eq_none_iff.1 hs) (not_not.2 ?_)
      exact List.mem_map.2 ⟨e, by simpa [toList] using Array.mem_of_getElem? he, hname⟩
  · obtain ⟨place, hplace⟩ :=
      Array.getElem?_of_mem (show e ∈ t.entries by simpa [toList] using mem_of_search hs)
    have hi := (h name place).2 ⟨e, hplace, nameOf_of_search hs⟩
    simp [find?, hi, hplace]

/-! ## Declaring -/

lemma declare_of_contains (h : t.contains (nameOf e) = true) :
    t.declare e = .error ⟨nameOf e⟩ := by
  simp [declare, h]

lemma declare_of_not_contains (h : t.contains (nameOf e) = false) :
    t.declare e = .ok (t.declareOrKeep e) := by
  simp [declareOrKeep, declare, h]

lemma declareOrKeep_of_contains (h : t.contains (nameOf e) = true) : t.declareOrKeep e = t := by
  simp [declareOrKeep, declare, h]

/-- A declaration appends an entry whose name is free and does nothing otherwise. -/
lemma toList_declareOrKeep (t : Table α) (e : α) :
    (t.declareOrKeep e).toList =
      if t.contains (nameOf e) then t.toList else t.toList ++ [e] := by
  by_cases h : t.contains (nameOf e) = true <;> simp [declareOrKeep, declare, h, toList]

lemma Indexed.declareOrKeep (h : t.Indexed) (e : α) : (t.declareOrKeep e).Indexed := by
  by_cases hc : t.contains (nameOf e) = true
  · rwa [declareOrKeep_of_contains hc]
  have hfree : nameOf e ∉ t.toList.map nameOf := fun hmem => hc (h.contains_iff.2 hmem)
  intro name place
  simp only [Table.declareOrKeep, declare, hc, if_false, Bool.false_eq_true,
    Std.TreeMap.getElem?_insert, Array.getElem?_push, Std.LawfulEqCmp.compare_eq_iff_eq]
  by_cases hname : nameOf e = name
  · subst hname
    constructor
    · intro hplace
      have hp : t.entries.size = place := by simpa using hplace
      exact ⟨e, by simp [hp], rfl⟩
    · rintro ⟨f, hf, hfe⟩
      by_cases hp : place = t.entries.size
      · simp [hp]
      · rw [if_neg hp] at hf
        refine absurd (List.mem_map.2 ⟨f, ?_, hfe⟩) hfree
        simpa [toList] using Array.mem_of_getElem? hf
  · rw [if_neg hname, h name place]
    by_cases hp : place = t.entries.size
    · subst hp
      simp [hname]
    · simp [hp]

/-- The table of the entries of a list, of several entries of one name the first. -/
def ofList (es : List α) : Table α := es.foldl declareOrKeep empty

lemma ofList_append (es : List α) (e : α) : ofList (es ++ [e]) = (ofList es).declareOrKeep e := by
  simp [ofList]

lemma indexed_ofList (es : List α) : (ofList es).Indexed := by
  induction es using List.reverseRecOn with
  | nil => exact indexed_empty
  | append_singleton es e ih =>
    rw [ofList_append]
    exact ih.declareOrKeep e

/-- A table that was filled from a list answers like the list. -/
theorem search_toList_ofList (es : List α) (name : String) :
    search name (ofList es).toList = search name es := by
  induction es using List.reverseRecOn with
  | nil => rfl
  | append_singleton es e ih =>
    rw [ofList_append, toList_declareOrKeep, search_append, ← ih]
    split
    · next hc =>
      rcases hs : search name (ofList es).toList with _ | f
      · have hne : nameOf e ≠ name := by
          rintro rfl
          exact search_eq_none_iff.1 hs ((indexed_ofList es).contains_iff.1 hc)
        simp [search, hne]
      · rfl
    · rw [search_append]

lemma find?_ofList (es : List α) (name : String) : (ofList es).find? name = search name es := by
  rw [(indexed_ofList es).find?_eq, search_toList_ofList]

lemma contains_ofList (es : List α) (name : String) :
    (ofList es).contains name = true ↔ name ∈ es.map nameOf := by
  rw [(indexed_ofList es).contains_iff, ← isSome_search, search_toList_ofList, isSome_search]

/-! ## The first entry of each name -/

/-- An entry, if none of those before it has its name. -/
def ifNew (past : List α) (e : α) : List α := if nameOf e ∈ past.map nameOf then [] else [e]

/-- The first entries of all names in a list, in order. -/
def firsts (es : List α) : List α := flatMapPast ifNew [] es

lemma firsts_append (es fs : List α) : firsts (es ++ fs) = firsts es ++ flatMapPast ifNew es fs := by
  rw [firsts, flatMapPast_append, List.nil_append, firsts]

lemma firsts_append_cons (es fs : List α) (e : α) :
    firsts (es ++ e :: fs) = firsts es ++ (ifNew es e ++ flatMapPast ifNew (es ++ [e]) fs) := by
  rw [firsts_append, flatMapPast_cons]

/-- Which entries are new depends on the names before them only. -/
lemma flatMapPast_ifNew_congr {past past' : List α}
    (h : ∀ name, name ∈ past.map nameOf ↔ name ∈ past'.map nameOf) (es : List α) :
    flatMapPast ifNew past es = flatMapPast ifNew past' es := by
  refine flatMapPast_congr fun pre e post _ => ?_
  simp only [ifNew, List.map_append, List.mem_append, h]

/-- A table that was filled from a list holds the first entries of all names. -/
theorem toList_ofList (es : List α) : (ofList es).toList = firsts es := by
  induction es using List.reverseRecOn with
  | nil => rfl
  | append_singleton es e ih =>
    have hiff := contains_ofList es (nameOf e)
    rw [ofList_append, toList_declareOrKeep, ih, firsts_append, flatMapPast_cons, flatMapPast_nil,
      List.append_nil, ifNew]
    by_cases h : nameOf e ∈ es.map nameOf
    · rw [if_pos (hiff.2 h), if_pos h, List.append_nil]
    · rw [if_neg fun hc => h (hiff.1 hc), if_neg h]

lemma search_firsts (es : List α) (name : String) : search name (firsts es) = search name es := by
  rw [← toList_ofList, search_toList_ofList]

/-- Lists with the same first entries hold entries of the same names. -/
lemma mem_names_iff_of_firsts_eq {es fs : List α} (h : firsts es = firsts fs) (name : String) :
    name ∈ es.map nameOf ↔ name ∈ fs.map nameOf := by
  rw [← isSome_search, ← search_firsts, h, search_firsts, isSome_search]

lemma firsts_append_congr {es fs : List α} (h : firsts es = firsts fs) (gs : List α) :
    firsts (es ++ gs) = firsts (fs ++ gs) := by
  rw [firsts_append, firsts_append, h, flatMapPast_ifNew_congr (mem_names_iff_of_firsts_eq h)]

/-- An entry whose name is taken is not among the first entries. -/
lemma firsts_append_of_mem {es : List α} (h : nameOf e ∈ es.map nameOf) :
    firsts (es ++ [e]) = firsts es := by
  rw [firsts_append, flatMapPast_cons, flatMapPast_nil, List.append_nil, ifNew, if_pos h,
    List.append_nil]

/-- An entry that is the first of its name is found under its name. -/
lemma search_of_mem_firsts {es : List α} (h : e ∈ firsts es) : search (nameOf e) es = some e := by
  obtain ⟨pre, x, post, rfl, hx⟩ := mem_flatMapPast.1 h
  rw [List.nil_append, ifNew] at hx
  split at hx
  · cases hx
  · next hnew =>
    rw [List.mem_singleton.1 hx, search_append, search_eq_none_iff.2 hnew, Option.none_or]
    simp [search]

/-- Entries that are made from others of the same names. -/
lemma flatMapPast_ifNew_map {β : Type} [Named β] {h : β → α} (hname : ∀ x, nameOf (h x) = nameOf x)
    (past xs : List β) :
    flatMapPast ifNew (past.map h) (xs.map h) = (flatMapPast ifNew past xs).map h := by
  have hnames : ∀ past : List β, (past.map h).map nameOf = past.map nameOf := fun past => by
    rw [List.map_map]
    exact List.map_congr_left fun x _ => hname x
  induction xs generalizing past with
  | nil => rfl
  | cons x xs ih =>
    have hnext : past.map h ++ [h x] = (past ++ [x]).map h := by simp
    rw [List.map_cons, flatMapPast_cons, flatMapPast_cons, List.map_append, hnext, ih, ifNew, ifNew,
      hnames, hname]
    split <;> rfl

lemma firsts_map {β : Type} [Named β] {h : β → α} (hname : ∀ x, nameOf (h x) = nameOf x)
    (xs : List β) : firsts (xs.map h) = (firsts xs).map h :=
  flatMapPast_ifNew_map hname [] xs

/-! ## Replacing -/

/-- Replacing keeps the index right if the new entry has the name of the old one. -/
lemma Indexed.replace (h : t.Indexed) (he : nameOf e = name) : (t.replace name e).Indexed := by
  unfold Table.replace
  rcases hi : t.index[name]? with _ | place
  · exact h
  obtain ⟨old, hold, hname⟩ := (h name place).1 hi
  have hlt : place < t.entries.size := (Array.getElem?_eq_some_iff.1 hold).1
  intro other i
  simp only [Array.getElem?_setIfInBounds]
  rw [h other i]
  by_cases hp : place = i
  · subst hp
    simp only [hold, if_pos hlt, if_true, Option.some.injEq, exists_eq_left', he, hname]
  · simp [hp]

/-- After a replacement the replaced name has the new entry, and all others have what they had. -/
lemma Indexed.find?_replace (h : t.Indexed) :
    (t.replace name e).find? other =
      if other = name then (t.find? name).map fun _ => e else t.find? other := by
  unfold Table.replace find?
  rcases hi : t.index[name]? with _ | place
  · by_cases ho : other = name <;> simp [ho, hi]
  obtain ⟨old, hold, hname⟩ := (h name place).1 hi
  have hlt : place < t.entries.size := (Array.getElem?_eq_some_iff.1 hold).1
  by_cases ho : other = name
  · subst ho
    simp [hi, hlt]
  · rw [if_neg ho]
    rcases hj : t.index[other]? with _ | j
    · rfl
    · have hne : place ≠ j := by
        rintro rfl
        obtain ⟨e', he', hname'⟩ := (h other place).1 hj
        rw [hold] at he'
        exact ho (by rw [← hname', ← hname, Option.some.inj he'])
      simp [hne]

/-- A replacement changes the entry of the replaced name and no other. -/
lemma Indexed.toList_replace (h : t.Indexed) :
    (t.replace name e).toList = t.toList.map fun x => if nameOf x = name then e else x := by
  unfold Table.replace
  rcases hi : t.index[name]? with _ | place
  · have hother : ∀ x ∈ t.toList, (if nameOf x = name then e else x) = x := by
      intro x hx
      obtain ⟨place, hplace⟩ := Array.getElem?_of_mem (show x ∈ t.entries by simpa [toList] using hx)
      refine if_neg fun hname => ?_
      rw [(h name place).2 ⟨x, hplace, hname⟩] at hi
      cases hi
    rw [List.map_congr_left hother, List.map_id']
  obtain ⟨old, hold, hname⟩ := (h name place).1 hi
  have hlist : t.toList[place]? = some old := by simpa [toList] using hold
  refine List.ext_getElem? fun i => ?_
  rw [List.getElem?_map, toList, Array.toList_setIfInBounds, ← toList, List.getElem?_set]
  by_cases hp : place = i
  · subst hp
    have hlt : place < t.toList.length := (List.getElem?_eq_some_iff.1 hlist).1
    rw [if_pos rfl, if_pos hlt, hlist, Option.map_some, if_pos hname]
  · rw [if_neg hp]
    rcases hx : t.toList[i]? with _ | x
    · rfl
    · -- the index tells one place for each name
      have hne : nameOf x ≠ name := by
        intro hx'
        have := (h name i).2 ⟨x, by simpa [toList] using hx, hx'⟩
        rw [hi] at this
        exact hp (Option.some.inj this)
      rw [Option.map_some, if_neg hne]

end LangCheck.Table

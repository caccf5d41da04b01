import Mathlib.Data.List.Induction
import Mathlib.Data.List.Nodup

/-!
# Going through a list with the elements passed so far in hand

What is found at an element of a list often depends on the elements before it: a name is declared
twice, a variable is visible.  `flatMapPast` collects what is found at each element, given those
before it.  The lemmas say it in terms of the ways to cut the list in front of an element.
-/

namespace LangCheck

variable {α β γ : Type}

/-- What `f` finds at each element of a list, given the elements before it, of which `past` come
before the list. -/
def flatMapPast (f : List α → α → List β) (past : List α) : List α → List β
  | [] => []
  | x :: xs => f past x ++ flatMapPast f (past ++ [x]) xs

variable {f g : List α → α → List β} {past xs ys : List α} {x : α}

@[simp] lemma flatMapPast_nil : flatMapPast f past [] = [] := rfl

@[simp] lemma flatMapPast_cons :
    flatMapPast f past (x :: xs) = f past x ++ flatMapPast f (past ++ [x]) xs := rfl

lemma flatMapPast_append :
    flatMapPast f past (xs ++ ys) = flatMapPast f past xs ++ flatMapPast f (past ++ xs) ys := by
  induction xs generalizing past with
  | nil => simp
  | cons x xs ih => simp [ih, List.append_assoc]

lemma mem_flatMapPast {b : β} :
    b ∈ flatMapPast f past xs ↔ ∃ pre x post, xs = pre ++ x :: post ∧ b ∈ f (past ++ pre) x := by
  induction xs generalizing past with
  | nil => simp
  | cons y ys ih =>
    rw [flatMapPast_cons, List.mem_append, ih]
    constructor
    · rintro (h | ⟨pre, x, post, rfl, h⟩)
      · exact ⟨[], y, ys, rfl, by simpa using h⟩
      · exact ⟨y :: pre, x, post, rfl, by simpa using h⟩
    · rintro ⟨pre, x, post, hxs, h⟩
      rcases pre with _ | ⟨z, pre⟩
      · obtain ⟨rfl, rfl⟩ := List.cons.inj hxs
        exact Or.inl (by simpa using h)
      · obtain ⟨rfl, rfl⟩ := List.cons.inj hxs
        exact Or.inr ⟨pre, x, post, rfl, by simpa using h⟩

/-- What is found stems from one of the elements. -/
lemma exists_mem_of_mem_flatMapPast {b : β} (h : b ∈ flatMapPast f past xs) :
    ∃ pre, ∃ x ∈ xs, b ∈ f (past ++ pre) x := by
  obtain ⟨pre, x, post, rfl, hb⟩ := mem_flatMapPast.1 h
  exact ⟨pre, x, List.mem_append_right _ List.mem_cons_self, hb⟩

/-- Nothing is found in a list exactly when nothing is found at any of its elements. -/
lemma flatMapPast_eq_nil_iff :
    flatMapPast f past xs = [] ↔ ∀ pre x post, xs = pre ++ x :: post → f (past ++ pre) x = [] := by
  constructor
  · intro h pre x post hxs
    refine List.eq_nil_iff_forall_not_mem.2 fun b hb => ?_
    exact (List.eq_nil_iff_forall_not_mem.1 h b) (mem_flatMapPast.2 ⟨pre, x, post, hxs, hb⟩)
  · intro h
    refine List.eq_nil_iff_forall_not_mem.2 fun b hb => ?_
    obtain ⟨pre, x, post, hxs, hmem⟩ := mem_flatMapPast.1 hb
    rw [h pre x post hxs] at hmem
    exact List.not_mem_nil hmem

lemma filter_flatMapPast (p : β → Bool) :
    (flatMapPast f past xs).filter p = flatMapPast (fun past x => (f past x).filter p) past xs := by
  induction xs generalizing past with
  | nil => rfl
  | cons x xs ih => simp [ih]

lemma flatMap_flatMapPast (h : β → List γ) :
    (flatMapPast f past xs).flatMap h =
      flatMapPast (fun past x => (f past x).flatMap h) past xs := by
  induction xs generalizing past with
  | nil => rfl
  | cons x xs ih => simp [ih]

lemma map_flatMapPast (h : β → γ) :
    (flatMapPast f past xs).map h = flatMapPast (fun past x => (f past x).map h) past xs := by
  induction xs generalizing past with
  | nil => rfl
  | cons x xs ih => simp [ih]

/-- Going through the values of some elements of a list is going through the list. -/
lemma flatMapPast_filterMap {g : α → Option β} {f : List β → β → List γ} :
    flatMapPast f (past.filterMap g) (xs.filterMap g) =
      flatMapPast (fun past x => (g x).toList.flatMap (f (past.filterMap g))) past xs := by
  induction xs generalizing past with
  | nil => rfl
  | cons x xs ih =>
    have hrest := @ih (past ++ [x])
    rw [List.filterMap_append] at hrest
    rcases hx : g x with _ | y
    · simpa [hx] using hrest
    · rw [List.filterMap_cons_some hx, List.filterMap_nil] at hrest
      rw [List.filterMap_cons_some hx, flatMapPast_cons, flatMapPast_cons, hrest, hx]
      simp

/-- Two ways of going through a list find the same if they do at each element, also behind different
elements. -/
lemma flatMapPast_congr {past' : List α}
    (h : ∀ pre x post, xs = pre ++ x :: post → f (past ++ pre) x = g (past' ++ pre) x) :
    flatMapPast f past xs = flatMapPast g past' xs := by
  induction xs generalizing past past' with
  | nil => rfl
  | cons y ys ih =>
    have hhead := h [] y ys rfl
    rw [List.append_nil, List.append_nil] at hhead
    rw [flatMapPast_cons, flatMapPast_cons, hhead, ih]
    intro pre x post hys
    have := h (y :: pre) x post (by rw [hys]; rfl)
    simpa using this

/-- Values behind a list of others are pairwise distinct, with these, exactly when none of them occurs
among the others and those before it. -/
lemma nodup_append_filterMap_iff {g : α → Option β} {ys : List β} :
    (ys ++ xs.filterMap g).Nodup ↔ ys.Nodup ∧
      ∀ pre x post y, xs = pre ++ x :: post → g x = some y → y ∉ ys ++ pre.filterMap g := by
  constructor
  · intro h
    refine ⟨(List.nodup_append.1 h).1, ?_⟩
    rintro pre x post y rfl hy hmem
    rw [List.filterMap_append, List.filterMap_cons_some hy, ← List.append_assoc,
      List.nodup_middle, List.nodup_cons] at h
    exact h.1 (List.mem_append_left _ hmem)
  · rintro ⟨hys, h⟩
    induction xs using List.reverseRecOn with
    | nil => simpa using hys
    | append_singleton xs x ih =>
      have hxs := ih fun pre z post y hz => h pre z (post ++ [x]) y (by simp [hz])
      rw [List.filterMap_append, ← List.append_assoc]
      rcases hx : g x with _ | y
      · simpa [hx] using hxs
      · rw [List.filterMap_cons_some hx, List.filterMap_nil, List.nodup_append_comm,
          List.singleton_append, List.nodup_cons]
        exact ⟨h xs x [] y rfl hx, hxs⟩

/-- Values are pairwise distinct exactly when none of them occurs among those before it. -/
lemma nodup_filterMap_iff {g : α → Option β} :
    (xs.filterMap g).Nodup ↔
      ∀ pre x post y, xs = pre ++ x :: post → g x = some y → y ∉ pre.filterMap g := by
  have h : (([] : List β) ++ xs.filterMap g).Nodup ↔ _ := nodup_append_filterMap_iff
  simpa using h

lemma nodup_map_iff {g : α → β} :
    (xs.map g).Nodup ↔ ∀ (pre : List α) (x : α) (post : List α), xs = pre ++ x :: post →
      g x ∉ pre.map g := by
  have h : (xs.filterMap (some ∘ g)).Nodup ↔ _ := nodup_filterMap_iff
  simpa [List.filterMap_eq_map] using h

end LangCheck

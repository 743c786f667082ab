import Mathlib.Data.List.Basic

/-!
# Saving into an array field of a document

A document database evaluates each equality condition on an array field on its own: it holds when some element
satisfies it. A program that means to replace the element with the fields of `x`, and to append `x` if there is none,
asks for all the conditions and then overwrites the element at the position the database reports, which is one that
satisfies at least one of them. That position is the parameter `index`. The save does what it is meant to do, whatever
position is reported, when no element shares only some of the fields. Elements that are saved one after the other are all
saved as they are meant to be exactly when each of them is clear of the array and of those before it.
-/

namespace Lib.ArrayField

variable {α β : Type} (fields : List (α → β))

def SameKey (a x : α) : Prop := ∀ f ∈ fields, f a = f x

/-- The element satisfies at least one of the conditions. -/
def Hit (a x : α) : Prop := ∃ f ∈ fields, f a = f x

/-- Each condition holds of some element. -/
def Matched (arr : List α) (x : α) : Prop := ∀ f ∈ fields, ∃ a ∈ arr, f a = f x

instance [DecidableEq β] (arr : List α) (x : α) : Decidable (Matched fields arr x) :=
  inferInstanceAs (Decidable (∀ f ∈ fields, ∃ a ∈ arr, f a = f x))

def save [DecidableEq β] (index : Nat) (arr : List α) (x : α) : List α :=
  if Matched fields arr x then arr.set index x else arr ++ [x]

/-- A position the database may report. -/
def Resolves (arr : List α) (x : α) (index : Nat) : Prop :=
  Matched fields arr x → ∃ a, arr[index]? = some a ∧ Hit fields a x

/-- When all the conditions hold, every element that satisfies one of them satisfies them all. -/
def Clear (arr : List α) (x : α) : Prop :=
  Matched fields arr x → ∀ a ∈ arr, Hit fields a x → SameKey fields a x

variable {fields}

theorem matched_congr {arr arr' : List α} (h : ∀ a, a ∈ arr ↔ a ∈ arr') (x : α) :
    Matched fields arr x ↔ Matched fields arr' x := by
  simp only [Matched, h]

theorem clear_congr {arr arr' : List α} (h : ∀ a, a ∈ arr ↔ a ∈ arr') (x : α) :
    Clear fields arr x ↔ Clear fields arr' x := by
  simp only [Clear, matched_congr h, h]

theorem matched_of_sameKey {arr : List α} {a x : α} (ha : a ∈ arr) (h : SameKey fields a x) :
    Matched fields arr x :=
  fun f hf => ⟨a, ha, h f hf⟩

variable (fields) in
theorem exists_resolves (hne : fields ≠ []) (arr : List α) (x : α) : ∃ index, Resolves fields arr x index := by
  by_cases hmatched : Matched fields arr x
  · obtain ⟨f, hf⟩ := List.exists_mem_of_ne_nil fields hne
    obtain ⟨a, ha, heq⟩ := hmatched f hf
    obtain ⟨index, hindex⟩ := List.mem_iff_getElem?.mp ha
    exact ⟨index, fun _ => ⟨a, hindex, f, hf, heq⟩⟩
  · exact ⟨0, fun h => absurd h hmatched⟩

/-- Any element that satisfies a condition may be the one that is overwritten. -/
theorem resolves_of_hit {arr : List α} {a x : α} (ha : a ∈ arr) (hhit : Hit fields a x) :
    ∃ index, arr[index]? = some a ∧ Resolves fields arr x index := by
  obtain ⟨index, hindex⟩ := List.mem_iff_getElem?.mp ha
  exact ⟨index, hindex, fun _ => ⟨a, hindex, hhit⟩⟩

/-- A save that is clear appends an element with new fields, or replaces the element with the same ones. -/
theorem save_of_clear [DecidableEq β] {arr : List α} {x : α} {index : Nat} (hclear : Clear fields arr x)
    (hresolves : Resolves fields arr x index) :
    (save fields index arr x = arr ++ [x] ∧ ∀ a ∈ arr, ¬ SameKey fields a x) ∨
      ∃ a, arr[index]? = some a ∧ SameKey fields a x ∧ save fields index arr x = arr.set index x := by
  by_cases hmatched : Matched fields arr x
  · obtain ⟨a, ha, hhit⟩ := hresolves hmatched
    exact .inr ⟨a, ha, hclear hmatched a (List.mem_of_getElem? ha) hhit, if_pos hmatched⟩
  · exact .inl ⟨if_neg hmatched, fun a ha hsame => hmatched (matched_of_sameKey ha hsame)⟩

/-! ### Saving one element after the other -/

variable (fields)

/-- The elements are saved one after the other, whatever positions the database reports. -/
inductive Saves [DecidableEq β] : List α → List α → List α → Prop where
  | nil (arr : List α) : Saves arr [] arr
  | cons {arr xs arr' : List α} {x : α} {index : Nat} (hindex : Resolves fields arr x index)
      (hrest : Saves (save fields index arr x) xs arr') : Saves arr (x :: xs) arr'

/-- No two elements have the same fields. -/
def Distinct (arr : List α) : Prop := arr.Pairwise fun a b => ¬ SameKey fields a b

def HasKey (arr : List α) (x : α) : Prop := ∃ a ∈ arr, SameKey fields a x

/-- Each element is clear of the array and of the elements before it. -/
def ClearAll (arr : List α) : List α → Prop
  | [] => True
  | x :: xs => Clear fields arr x ∧ ClearAll (arr ++ [x]) xs

instance [DecidableEq β] (a x : α) : Decidable (SameKey fields a x) :=
  inferInstanceAs (Decidable (∀ f ∈ fields, f a = f x))

instance [DecidableEq β] (a x : α) : Decidable (Hit fields a x) := inferInstanceAs (Decidable (∃ f ∈ fields, f a = f x))

instance [DecidableEq β] (arr : List α) (x : α) : Decidable (Clear fields arr x) :=
  inferInstanceAs (Decidable (Matched fields arr x → ∀ a ∈ arr, Hit fields a x → SameKey fields a x))

instance decidableClearAll [DecidableEq β] : (arr xs : List α) → Decidable (ClearAll fields arr xs)
  | _, [] => isTrue trivial
  | arr, x :: xs =>
    have : Decidable (ClearAll fields (arr ++ [x]) xs) := decidableClearAll (arr ++ [x]) xs
    inferInstanceAs (Decidable (Clear fields arr x ∧ ClearAll fields (arr ++ [x]) xs))

variable {fields}

theorem SameKey.refl (a : α) : SameKey fields a a := fun _ _ => rfl

theorem SameKey.symm {a b : α} (h : SameKey fields a b) : SameKey fields b a := fun f hf => (h f hf).symm

theorem SameKey.trans {a b c : α} (h : SameKey fields a b) (h' : SameKey fields b c) : SameKey fields a c :=
  fun f hf => (h f hf).trans (h' f hf)

theorem Hit.of_sameKey {a b x : α} (h : Hit fields a x) (hsame : SameKey fields a b) : Hit fields b x := by
  obtain ⟨f, hf, heq⟩ := h
  exact ⟨f, hf, (hsame f hf).symm.trans heq⟩

theorem Hit.of_sameKey_right {a x y : α} (h : Hit fields a x) (hsame : SameKey fields x y) : Hit fields a y := by
  obtain ⟨f, hf, heq⟩ := h
  exact ⟨f, hf, heq.trans (hsame f hf)⟩

theorem hasKey_append {arr arr' : List α} {x : α} :
    HasKey fields (arr ++ arr') x ↔ HasKey fields arr x ∨ HasKey fields arr' x := by
  simp only [HasKey, List.mem_append, or_and_right, exists_or]

theorem hasKey_cons {a x : α} {arr : List α} :
    HasKey fields (a :: arr) x ↔ SameKey fields a x ∨ HasKey fields arr x := by
  simp [HasKey]

theorem matched_congr_key {arr arr' : List α} (h : ∀ k, HasKey fields arr k → HasKey fields arr' k) {x : α}
    (hmatched : Matched fields arr x) : Matched fields arr' x := by
  intro f hf
  obtain ⟨a, ha, heq⟩ := hmatched f hf
  obtain ⟨a', ha', hsame⟩ := h a ⟨a, ha, .refl a⟩
  exact ⟨a', ha', (hsame f hf).trans heq⟩

theorem clear_congr_key {arr arr' : List α} (h : ∀ k, HasKey fields arr k ↔ HasKey fields arr' k) {x : α}
    (hclear : Clear fields arr x) : Clear fields arr' x := by
  intro hmatched a' ha' hhit
  obtain ⟨a, ha, hsame⟩ := (h a').mpr ⟨a', ha', .refl a'⟩
  have hkey := hclear (matched_congr_key (fun k => (h k).mpr) hmatched) a ha (hhit.of_sameKey hsame.symm)
  exact hsame.symm.trans hkey

theorem clearAll_congr_key {arr arr' xs : List α} (h : ∀ k, HasKey fields arr k ↔ HasKey fields arr' k)
    (hclear : ClearAll fields arr xs) : ClearAll fields arr' xs := by
  induction xs generalizing arr arr' with
  | nil => trivial
  | cons x xs ih =>
    refine ⟨clear_congr_key h hclear.1, ih (fun k => ?_) hclear.2⟩
    rw [hasKey_append, hasKey_append, h k]

theorem ClearAll.sameKey_of_hit {arr xs : List α} (h : ClearAll fields arr xs) {y a b : α} (hy : y ∈ xs) (ha : a ∈ arr)
    (hsame : SameKey fields a y) (hb : b ∈ arr) (hhit : Hit fields b y) : SameKey fields b y := by
  induction xs generalizing arr with
  | nil => cases hy
  | cons x xs ih =>
    rcases List.mem_cons.mp hy with rfl | hy
    · exact h.1 (matched_of_sameKey ha hsame) b hb hhit
    · exact ih h.2 hy (List.mem_append_left _ ha) (List.mem_append_left _ hb)

/-! ### The array after clear saves -/

theorem Distinct.eq_of_sameKey {arr : List α} (h : Distinct fields arr) {i j : Nat} {a b : α} (ha : arr[i]? = some a)
    (hb : arr[j]? = some b) (hsame : SameKey fields a b) : i = j := by
  obtain ⟨hi, rfl⟩ := List.getElem?_eq_some_iff.mp ha
  obtain ⟨hj, rfl⟩ := List.getElem?_eq_some_iff.mp hb
  rcases Nat.lt_trichotomy i j with hlt | heq | hlt
  · exact absurd hsame (List.pairwise_iff_getElem.mp h i j hi hj hlt)
  · exact heq
  · exact absurd hsame.symm (List.pairwise_iff_getElem.mp h j i hj hi hlt)

theorem distinct_of_getElem {arr : List α}
    (h : ∀ (i j : Nat) (a b : α), arr[i]? = some a → arr[j]? = some b → SameKey fields a b → i = j) : Distinct fields arr := by
  refine List.pairwise_iff_getElem.mpr fun i j hi hj hlt hsame => ?_
  have heq := h i j _ _ (List.getElem?_eq_getElem hi) (List.getElem?_eq_getElem hj) hsame
  omega

theorem distinct_snoc {arr : List α} {x : α} :
    Distinct fields (arr ++ [x]) ↔ Distinct fields arr ∧ ¬ HasKey fields arr x := by
  simp [Distinct, HasKey, List.pairwise_append]

theorem hasKey_set {arr : List α} {index : Nat} {a x : α} (ha : arr[index]? = some a) (hsame : SameKey fields a x)
    (k : α) : HasKey fields (arr.set index x) k ↔ HasKey fields arr k := by
  obtain ⟨hlt, rfl⟩ := List.getElem?_eq_some_iff.mp ha
  constructor
  · rintro ⟨b, hb, hk⟩
    rcases List.mem_or_eq_of_mem_set hb with hb | rfl
    · exact ⟨b, hb, hk⟩
    · exact ⟨_, List.getElem_mem hlt, hsame.trans hk⟩
  · rintro ⟨b, hb, hk⟩
    obtain ⟨j, hj⟩ := List.mem_iff_getElem?.mp hb
    by_cases heq : index = j
    · subst heq
      obtain rfl := Option.some.inj (ha.symm.trans hj)
      exact ⟨x, List.mem_set hlt x, hsame.symm.trans hk⟩
    · exact ⟨b, List.mem_of_getElem? ((List.getElem?_set_ne heq).trans hj), hk⟩

theorem getElem?_set_cases {arr : List α} {index j : Nat} {x b : α} (h : (arr.set index x)[j]? = some b) :
    (index = j ∧ b = x) ∨ (index ≠ j ∧ arr[j]? = some b) := by
  rw [List.getElem?_set] at h
  split at h
  · rename_i heq
    split at h
    · exact .inl ⟨heq, (Option.some.inj h).symm⟩
    · cases h
  · rename_i hne
    exact .inr ⟨hne, h⟩

theorem distinct_set {arr : List α} {index : Nat} {a x : α} (ha : arr[index]? = some a) (hsame : SameKey fields a x)
    (h : Distinct fields arr) : Distinct fields (arr.set index x) := by
  refine distinct_of_getElem fun i j b c hb hc hbc => ?_
  rcases getElem?_set_cases hb with ⟨rfl, rfl⟩ | ⟨-, hb'⟩
  · rcases getElem?_set_cases hc with ⟨rfl, -⟩ | ⟨-, hc'⟩
    · rfl
    · exact h.eq_of_sameKey ha hc' (hsame.trans hbc)
  · rcases getElem?_set_cases hc with ⟨rfl, rfl⟩ | ⟨-, hc'⟩
    · exact h.eq_of_sameKey hb' ha (hbc.trans hsame.symm)
    · exact h.eq_of_sameKey hb' hc' hbc

variable [DecidableEq β]

theorem save_distinct {arr : List α} {x : α} {index : Nat} (hdistinct : Distinct fields arr)
    (hclear : Clear fields arr x) (hindex : Resolves fields arr x index) :
    Distinct fields (save fields index arr x) ∧
      ∀ y, y ∈ save fields index arr x ↔ y = x ∨ (y ∈ arr ∧ ¬ SameKey fields y x) := by
  rcases save_of_clear hclear hindex with ⟨hsave, hnone⟩ | ⟨a, ha, hsame, hsave⟩
  · rw [hsave]
    refine ⟨distinct_snoc.mpr ⟨hdistinct, fun ⟨a, ha, hsame⟩ => hnone a ha hsame⟩, fun y => ?_⟩
    rw [List.mem_append, List.mem_singleton]
    constructor
    · rintro (hy | rfl)
      · exact .inr ⟨hy, hnone y hy⟩
      · exact .inl rfl
    · rintro (rfl | ⟨hy, -⟩)
      · exact .inr rfl
      · exact .inl hy
  · rw [hsave]
    refine ⟨distinct_set ha hsame hdistinct, fun y => ⟨fun hy => ?_, ?_⟩⟩
    · obtain ⟨j, hj⟩ := List.mem_iff_getElem?.mp hy
      rcases getElem?_set_cases hj with ⟨-, rfl⟩ | ⟨hne, hj⟩
      · exact .inl rfl
      · exact .inr ⟨List.mem_of_getElem? hj, fun hyx => hne (hdistinct.eq_of_sameKey ha hj (hsame.trans hyx.symm))⟩
    · obtain ⟨hlt, rfl⟩ := List.getElem?_eq_some_iff.mp ha
      rintro (rfl | ⟨hy, hyx⟩)
      · exact List.mem_set hlt y
      · obtain ⟨j, hj⟩ := List.mem_iff_getElem?.mp hy
        have hne : index ≠ j := by
          rintro rfl
          obtain rfl := Option.some.inj (ha.symm.trans hj)
          exact hyx hsame
        exact List.mem_of_getElem? ((List.getElem?_set_ne hne).trans hj)

theorem hasKey_save {arr : List α} {x : α} {index : Nat} (hclear : Clear fields arr x)
    (hindex : Resolves fields arr x index) (k : α) :
    HasKey fields (save fields index arr x) k ↔ HasKey fields (arr ++ [x]) k := by
  rcases save_of_clear hclear hindex with ⟨hsave, -⟩ | ⟨a, ha, hsame, hsave⟩
  · rw [hsave]
  · rw [hsave, hasKey_set ha hsame, hasKey_append, hasKey_cons]
    constructor
    · exact .inl
    · rintro (h | h | ⟨_, hnil, _⟩)
      · exact h
      · exact ⟨a, List.mem_of_getElem? ha, hsame.trans h⟩
      · cases hnil

/-- **Clear saves.** Whatever positions the database reports, saves that are all clear leave each saved element, each
other element whose fields have not been saved, and nothing else. -/
theorem Saves.of_clearAll {arr xs arr' : List α} (h : Saves fields arr xs arr') (hdistinct : Distinct fields arr)
    (hxs : Distinct fields xs) (hclear : ClearAll fields arr xs) :
    Distinct fields arr' ∧ ∀ y, y ∈ arr' ↔ y ∈ xs ∨ (y ∈ arr ∧ ¬ HasKey fields xs y) := by
  induction h with
  | nil arr => exact ⟨hdistinct, fun y => by simp [HasKey]⟩
  | @cons arr xs arr' x index hindex hrest ih =>
    obtain ⟨hfirst, hothers⟩ := List.pairwise_cons.mp hxs
    obtain ⟨hsaved, hmem⟩ := save_distinct hdistinct hclear.1 hindex
    obtain ⟨hdistinct', hmem'⟩ :=
      ih hsaved hothers (clearAll_congr_key (fun k => (hasKey_save hclear.1 hindex k).symm) hclear.2)
    have hx : ¬ HasKey fields xs x := fun ⟨a, ha, hsame⟩ => hfirst a ha hsame.symm
    refine ⟨hdistinct', fun y => ?_⟩
    rw [hmem', hmem, hasKey_cons, List.mem_cons]
    constructor
    · rintro (hy | ⟨rfl | ⟨hy, hyx⟩, hkey⟩)
      · exact .inl (.inr hy)
      · exact .inl (.inl rfl)
      · exact .inr ⟨hy, not_or.mpr ⟨fun h => hyx h.symm, hkey⟩⟩
    · rintro ((rfl | hy) | ⟨hy, hkey⟩)
      · exact .inr ⟨.inl rfl, hx⟩
      · exact .inl hy
      · exact .inr ⟨.inr ⟨hy, fun h => hkey (.inl h.symm)⟩, fun h => hkey (.inr h)⟩

/-! ### Saves that are not clear -/

omit [DecidableEq β] in
/-- Two elements that share a field with `x`, of which one has not all of them: whichever of the two is overwritten, the
other one stays, and so one of the two arrays is not as it should be. -/
theorem clear_of_both {arr xs : List α} {x : α} {K : α → Prop} (hmatched : Matched fields arr x)
    (h : ∀ index, Resolves fields arr x index → Distinct fields (arr.set index x) ∧
      (∀ k, K k ↔ HasKey fields (arr.set index x) k ∨ HasKey fields xs k) ∧ ClearAll fields (arr.set index x) xs) :
    Clear fields arr x := by
  intro _ b hb hhit
  by_contra hsame
  obtain ⟨f, hf, hbf⟩ : ∃ f ∈ fields, f b ≠ f x := by simpa [SameKey] using hsame
  obtain ⟨c, hc, hcf⟩ := hmatched f hf
  obtain ⟨i, hi, hresolves⟩ := resolves_of_hit hb hhit
  obtain ⟨j, hj, hresolves'⟩ := resolves_of_hit hc ⟨f, hf, hcf⟩
  have hcb : ¬ SameKey fields c b := fun hcb => hbf ((hcb f hf).symm.trans hcf)
  have hij : i ≠ j := by
    rintro rfl
    obtain rfl := Option.some.inj (hi.symm.trans hj)
    exact hbf hcf
  obtain ⟨-, hkeys, -⟩ := h i hresolves
  obtain ⟨hdistinct', hkeys', hclear'⟩ := h j hresolves'
  have hstay : (arr.set j x)[i]? = some b := (List.getElem?_set_ne hij.symm).trans hi
  have hkey : K b := (hkeys' b).mpr (.inl ⟨b, List.mem_of_getElem? hstay, .refl b⟩)
  rcases (hkeys b).mp hkey with ⟨d, hd, hdb⟩ | ⟨y, hy, hyb⟩
  · obtain ⟨k, hk⟩ := List.mem_iff_getElem?.mp hd
    rcases getElem?_set_cases hk with ⟨-, rfl⟩ | ⟨hik, hk⟩
    · exact hsame hdb.symm
    · have hjk : j ≠ k := by
        rintro rfl
        obtain rfl := Option.some.inj (hj.symm.trans hk)
        exact hcb hdb
      have hstay' : (arr.set j x)[k]? = some d := (List.getElem?_set_ne hjk).trans hk
      exact hik (hdistinct'.eq_of_sameKey hstay hstay' hdb.symm)
  · -- `b` is saved again, and meets `x`
    obtain ⟨hlt, -⟩ := List.getElem?_eq_some_iff.mp hj
    have hxy := hclear'.sameKey_of_hit hy (List.mem_of_getElem? hstay) hyb.symm (List.mem_set hlt x)
      (Hit.of_sameKey_right (by obtain ⟨g, hg, heq⟩ := hhit; exact ⟨g, hg, heq.symm⟩) hyb.symm)
    exact hsame (hyb.symm.trans hxy.symm)

/-- **Only clear saves.** If distinct fields, and the same ones, are there whatever positions the database reports, then
all the saves are clear. -/
theorem clearAll_of_saves (hne : fields ≠ []) {arr xs : List α} {K : α → Prop}
    (h : ∀ arr', Saves fields arr xs arr' → Distinct fields arr' ∧ ∀ k, K k ↔ HasKey fields arr' k) :
    Distinct fields arr ∧ (∀ k, K k ↔ HasKey fields arr k ∨ HasKey fields xs k) ∧ ClearAll fields arr xs := by
  induction xs generalizing arr with
  | nil =>
    obtain ⟨hdistinct, hkeys⟩ := h arr (.nil arr)
    exact ⟨hdistinct, fun k => by simp [hkeys, HasKey], trivial⟩
  | cons x xs ih =>
    have hsave : ∀ index, Resolves fields arr x index → _ := fun index hindex =>
      ih fun arr' hrest => h arr' (.cons hindex hrest)
    have hclear : Clear fields arr x := by
      intro hmatched
      have hset : ∀ index, save fields index arr x = arr.set index x := fun index => if_pos hmatched
      simp only [hset] at hsave
      exact clear_of_both hmatched hsave hmatched
    obtain ⟨index, hindex⟩ := exists_resolves fields hne arr x
    obtain ⟨hdistinct, hkeys, hrest⟩ := hsave index hindex
    refine ⟨?_, fun k => ?_, hclear, clearAll_congr_key (hasKey_save hclear hindex) hrest⟩
    · rcases save_of_clear hclear hindex with ⟨heq, -⟩ | ⟨a, ha, hsame, heq⟩
      · rw [heq] at hdistinct
        exact (distinct_snoc.mp hdistinct).1
      · rw [heq] at hdistinct
        obtain ⟨hlt, rfl⟩ := List.getElem?_eq_some_iff.mp ha
        have hback := distinct_set (List.getElem?_set_self hlt) hsame.symm hdistinct
        rwa [List.set_set, List.set_getElem_self] at hback
    · rw [hkeys, hasKey_save hclear hindex, hasKey_append, hasKey_cons, hasKey_cons, or_assoc, or_assoc]
      simp [HasKey]

end Lib.ArrayField

import Mathlib.Data.List.Lex
import ScriptDoc.Text.Basic

/-! The order of texts is the lexicographic one on the numbers of their code points, and putting
texts in ascending order sorts them by it. A sorted list is fixed by its members, so the order in
which texts were given leaves no trace. -/
namespace ScriptDoc

theorem CodePoint.value_injective : Function.Injective CodePoint.value := by
  intro a b hSame
  rw [← CodePoint.ofNat_value a, hSame, CodePoint.ofNat_value]

/-- The first code point has the smaller number. -/
def CodePoint.Below (a b : CodePoint) : Prop :=
  a.value < b.value

instance : Std.Asymm CodePoint.Below where
  asymm _ _ := Nat.lt_asymm

instance : Std.Trichotomous CodePoint.Below where
  trichotomous _ _ hNot hNot' :=
    CodePoint.value_injective (Nat.le_antisymm (Nat.le_of_not_lt hNot') (Nat.le_of_not_lt hNot))

instance : IsOrderConnected CodePoint CodePoint.Below where
  conn a b c hBelow := by
    unfold CodePoint.Below at hBelow ⊢
    omega

namespace Text

/-- The first text comes earlier by the numbers of code points. -/
def Before (s t : Text) : Prop :=
  List.Lex CodePoint.Below s t

instance : Std.Asymm Before :=
  inferInstanceAs (Std.Asymm (List.Lex CodePoint.Below))

instance : Std.Trichotomous Before :=
  inferInstanceAs (Std.Trichotomous (List.Lex CodePoint.Below))

instance : IsOrderConnected Text Before :=
  inferInstanceAs (IsOrderConnected (List CodePoint) (List.Lex CodePoint.Below))

/-- The comparison of texts goes code point by code point. -/
theorem precedes_iff {s t : Text} : precedes s t = true ↔ Before s t := by
  unfold Before
  fun_induction precedes s t with
  | case1 s => simp
  | case2 t => simp
  | case3 a s b t ih =>
      rw [Bool.or_eq_true, decide_eq_true_eq, Bool.and_eq_true, beq_iff_eq, ih]
      constructor
      · rintro (hBelow | ⟨rfl, hBefore⟩)
        · exact .rel hBelow
        · exact .cons hBefore
      · intro hLex
        cases hLex with
        | rel hBelow => exact Or.inl hBelow
        | cons hBefore => exact Or.inr ⟨rfl, hBefore⟩

/-- No text comes earlier than one before it in the list. -/
def Sorted (texts : List Text) : Prop :=
  texts.Pairwise fun s t => ¬ Before t s

section Keys

variable {α : Type} (key : α → Text)

theorem insertByKey_perm (entry : α) (entries : List α) :
    (insertByKey key entry entries).Perm (entry :: entries) := by
  induction entries with
  | nil => exact List.Perm.refl _
  | cons other rest ih =>
      rw [insertByKey]
      split
      · exact (ih.cons other).trans (List.Perm.swap entry other rest)
      · exact List.Perm.refl _

/-- An entry that is put in its place leaves sorted keys sorted. -/
theorem pairwise_insertByKey {entries : List α}
    (h : entries.Pairwise fun a b => ¬ Before (key b) (key a)) (entry : α) :
    (insertByKey key entry entries).Pairwise fun a b => ¬ Before (key b) (key a) := by
  induction entries with
  | nil => exact List.pairwise_singleton _ _
  | cons other rest ih =>
      obtain ⟨hFirst, hRest⟩ := List.pairwise_cons.mp h
      rw [insertByKey]
      split
      · next hBefore =>
          refine List.pairwise_cons.mpr ⟨?_, ih hRest⟩
          intro later hMem
          rcases List.mem_cons.mp ((insertByKey_perm key entry rest).mem_iff.mp hMem) with rfl | hMem
          · exact asymm_of _ (precedes_iff.mp hBefore)
          · exact hFirst later hMem
      · next hNot =>
          refine List.pairwise_cons.mpr ⟨?_, h⟩
          intro later hMem hBefore
          have hFront : ¬ Before (key other) (key entry) := fun hBefore => hNot (precedes_iff.mpr hBefore)
          rcases List.mem_cons.mp hMem with rfl | hMem
          · exact hFront hBefore
          · rcases IsOrderConnected.conn (key later) (key other) (key entry) hBefore with hLeft | hRight
            · exact hFirst later hMem hLeft
            · exact hFront hRight

theorem ascendingBy_perm (entries : List α) : (ascendingBy key entries).Perm entries := by
  induction entries with
  | nil => exact List.Perm.refl _
  | cons entry rest ih => exact (insertByKey_perm key entry (ascendingBy key rest)).trans (ih.cons entry)

/-- The induction is on the entries: each is put before the first that its key does not come after.
-/
theorem ascendingBy_pairwise (entries : List α) :
    (ascendingBy key entries).Pairwise fun a b => ¬ Before (key b) (key a) := by
  induction entries with
  | nil => exact List.Pairwise.nil
  | cons entry rest ih => exact pairwise_insertByKey key ih entry

end Keys

theorem ascending_perm (texts : List Text) : (ascending texts).Perm texts :=
  ascendingBy_perm id texts

theorem ascending_sorted (texts : List Text) : Sorted (ascending texts) :=
  ascendingBy_pairwise id texts

/-- There is one order only. -/
theorem Sorted.eq_of_perm {texts others : List Text} (h : Sorted texts) (hOthers : Sorted others)
    (hPerm : texts.Perm others) : texts = others := by
  refine hPerm.eq_of_pairwise ?_ h hOthers
  intro s t _ _ hNot hNot'
  exact Std.Trichotomous.trichotomous s t hNot' hNot

/-- Where the order comes from does not matter. -/
theorem ascending_eq_of_perm {texts others : List Text} (h : texts.Perm others) :
    ascending texts = ascending others :=
  (ascending_sorted texts).eq_of_perm (ascending_sorted others)
    ((ascending_perm texts).trans (h.trans (ascending_perm others).symm))

theorem Sorted.ascending_eq {texts : List Text} (h : Sorted texts) : ascending texts = texts :=
  (ascending_sorted texts).eq_of_perm h (ascending_perm texts)

/-- Different texts in order come strictly one before the other. -/
theorem Sorted.pairwise_before {texts : List Text} (h : Sorted texts) (hOnce : texts.Nodup) :
    texts.Pairwise Before := by
  refine (h.and hOnce).imp ?_
  intro s t hBoth
  by_contra hNot
  exact hBoth.2 (Std.Trichotomous.trichotomous s t hNot hBoth.1)

/-! Each text once. -/

theorem nodup_eraseDups (texts : List Text) : texts.eraseDups.Nodup := by
  -- What is left behind the first text is a shorter list, but no part of the given one.
  induction hLength : texts.length using Nat.strongRecOn generalizing texts with
  | ind n ih =>
      cases texts with
      | nil => exact List.nodup_nil
      | cons t rest =>
          have hShorter : (rest.filter fun s => !s == t).length < n := by
            rw [← hLength, List.length_cons]
            exact Nat.lt_succ_of_le (List.length_filter_le _ _)
          rw [List.eraseDups_cons, List.nodup_cons]
          exact ⟨by simp, ih _ hShorter _ rfl⟩

/-- Texts that are put in order, each once, come strictly one before the other. -/
theorem ascending_eraseDups_pairwise (texts : List Text) :
    (ascending texts.eraseDups).Pairwise Before :=
  (ascending_sorted _).pairwise_before ((ascending_perm _).nodup_iff.mpr (nodup_eraseDups texts))

/-- Ordering and taking out repetitions keep every text. -/
theorem mem_ascending_eraseDups {s : Text} {texts : List Text} :
    s ∈ ascending texts.eraseDups ↔ s ∈ texts := by
  rw [(ascending_perm _).mem_iff, List.mem_eraseDups]

/-- Which texts there are decides their order. -/
theorem ascending_eraseDups_congr {texts others : List Text} (h : ∀ s, s ∈ texts ↔ s ∈ others) :
    ascending texts.eraseDups = ascending others.eraseDups := by
  apply ascending_eq_of_perm
  rw [List.perm_ext_iff_of_nodup (nodup_eraseDups texts) (nodup_eraseDups others)]
  intro s
  rw [List.mem_eraseDups, List.mem_eraseDups, h s]

end Text
end ScriptDoc

import Mathlib.Data.List.Perm.Basic
import SchemaCompose.Disk.Expansion

/-!
# The order of what a pattern matches

Texts are put in the order of the numbers of their characters, which is the
lexicographic order on lists of characters.  In whatever order the texts are given that a
pattern matches, the files among them come out the same (`filesAmong_of_perm`).
-/

namespace SchemaCompose.Disk

theorem inOrder_iff {earlier later : Text} :
    inOrder earlier later = true ↔
      ¬ List.Lex (fun left right : Char => left.toNat < right.toNat) later earlier := by
  rw [inOrder, Bool.not_eq_true', ← Bool.not_eq_true, List.lex_eq_true_iff_lex]
  simp only [Nat.blt_eq]

theorem inOrder_total (first second : Text) :
    (inOrder first second || inOrder second first) = true := by
  rw [Bool.or_eq_true, inOrder_iff, inOrder_iff]
  exact List.not_lex_total (fun left right => by omega) second first

theorem inOrder_antisymm {first second : Text} (before : inOrder first second = true)
    (behind : inOrder second first = true) : first = second := by
  rw [inOrder_iff] at before behind
  refine List.lex_trichotomous (fun left right above below => ?_) before behind
  exact Char.toNat_inj.mp (by omega)

theorem inOrder_trans {first second third : Text} (before : inOrder first second = true)
    (behind : inOrder second third = true) : inOrder first third = true := by
  by_cases same : inOrder second first = true
  · exact inOrder_antisymm before same ▸ behind
  · -- the first stands before the second, so the third would, too
    rw [inOrder_iff, not_not] at same
    rw [inOrder_iff] at behind ⊢
    exact fun third_first => behind (List.lex_trans Nat.lt_trans third_first same)

/-- The texts stand in order. -/
def AreSorted (texts : List Text) : Prop :=
  texts.Pairwise fun earlier later => inOrder earlier later = true

instance (texts : List Text) : Decidable (AreSorted texts) :=
  inferInstanceAs (Decidable (texts.Pairwise fun earlier later => inOrder earlier later = true))

theorem areSorted_mergeSort (texts : List Text) : AreSorted (texts.mergeSort inOrder) :=
  @List.pairwise_mergeSort Text inOrder (fun _ _ _ => inOrder_trans) inOrder_total texts

/-- There is one way of putting texts in order. -/
theorem eq_mergeSort_of_perm {sorted texts : List Text} (perm : sorted.Perm texts)
    (ordered : AreSorted sorted) : sorted = texts.mergeSort inOrder :=
  List.Perm.eq_of_pairwise (fun _ _ _ _ => inOrder_antisymm) ordered
    (areSorted_mergeSort texts) (perm.trans (List.mergeSort_perm _ _).symm)

theorem mergeSort_of_perm {texts others : List Text} (perm : texts.Perm others) :
    texts.mergeSort inOrder = others.mergeSort inOrder :=
  eq_mergeSort_of_perm ((List.mergeSort_perm _ _).trans perm)
    (areSorted_mergeSort texts)

/-- Leaving texts out and putting them in order can be done in either order. -/
theorem mergeSort_filter (kept : Text → Bool) (texts : List Text) :
    (texts.filter kept).mergeSort inOrder = (texts.mergeSort inOrder).filter kept :=
  (eq_mergeSort_of_perm ((List.mergeSort_perm texts inOrder).filter kept)
    ((areSorted_mergeSort texts).filter kept)).symm

/-- The files among the texts that a pattern matches, seen from a directory, in the order
of the texts. -/
def filesAmong (disk : Disk) (base : Path) (texts : List Text) :
    Except DiskError (List Path) :=
  disk.files ((texts.mergeSort inOrder).map fun text => base.append (Path.ofText text))

theorem expand_eq (disk : Disk) (base : Path) (pattern : Text) :
    disk.expand base pattern = disk.matching base.text pattern >>= disk.filesAmong base :=
  rfl

/-- The order in which texts are given does not matter. -/
theorem filesAmong_of_perm {texts others : List Text} (perm : texts.Perm others)
    (disk : Disk) (base : Path) : disk.filesAmong base texts = disk.filesAmong base others := by
  rw [filesAmong, filesAmong, mergeSort_of_perm perm]

end SchemaCompose.Disk

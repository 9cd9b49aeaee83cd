import ClassDiagram.Proofs.Header.TypeList
import ClassDiagram.Proofs.Text.Partner

/-!
# Type parameters in front of a header

The type parameters that a header starts with are the group of their first angle bracket. What
follows that group is left of the header, and nothing if the bracket is never closed.
-/

namespace ClassDiagram.TypeList

open Text

theorem afterParameters_cases {gap : List Char} (hgap : ∀ c ∈ gap, isBlank c = true)
    (cs : List Char) :
    (afterParameters (gap ++ '<' :: cs) = [] ∧ StaysOpen '<' '>' ('<' :: cs)) ∨
      ∃ parameters rest, '<' :: cs = parameters ++ rest ∧ IsGroup '<' '>' parameters ∧
        afterParameters (gap ++ '<' :: cs) = rest := by
  have hstart : trimStart (gap ++ '<' :: cs) = '<' :: cs :=
    trimStart_append hgap (forall_mem_head_cons (by decide) _)
  have hfound := endsGroup_closingFrom_cons Char.utf8Size (show '<' ≠ '>' by decide) 0 cs
  rw [afterParameters, hstart]
  simp only [partner?]
  generalize closingFrom Char.utf8Size '<' '>' 0 0 ('<' :: cs) = found at hfound ⊢
  cases hfound with
  | unclosed stays => exact .inl ⟨rfl, stays⟩
  | closed inside rest parts group =>
      have hmarks : '<'.utf8Size = 1 ∧ '>'.utf8Size = 1 := by decide
      have hparts : '<' :: cs = ['<'] ++ inside ++ ['>'] ++ rest := by simp [parts]
      have hsize : 0 + '<'.utf8Size + totalSize Char.utf8Size inside + 1 =
          byteLength (['<'] ++ inside ++ ['>']) := by
        simp only [totalSize_utf8Size, byteLength_append, byteLength_cons, byteLength_nil, hmarks]
      refine .inr ⟨_, rest, hparts, group, ?_⟩
      dsimp only
      rw [hsize, hparts, dropBytes_append]

theorem afterParameters_group {gap parameters : List Char} (hgap : ∀ c ∈ gap, isBlank c = true)
    (h : IsGroup '<' '>' parameters) (rest : List Char) :
    afterParameters (gap ++ (parameters ++ rest)) = rest := by
  obtain ⟨inside, rfl⟩ := List.head?_eq_some_iff.mp h.head
  rcases afterParameters_cases hgap (inside ++ rest) with
    ⟨_, hstays⟩ | ⟨_, _, hparts, hgroup, hrest⟩
  · exact absurd h (hstays.not_isGroup (List.prefix_append _ rest))
  · obtain ⟨-, rfl⟩ := h.append_inj hgroup hparts
    exact hrest

theorem afterParameters_of_not_isGroup {gap cs : List Char} (hgap : ∀ c ∈ gap, isBlank c = true)
    (h : ∀ parameters, parameters <+: '<' :: cs → ¬IsGroup '<' '>' parameters) :
    afterParameters (gap ++ '<' :: cs) = [] := by
  rcases afterParameters_cases hgap cs with ⟨hnil, _⟩ | ⟨parameters, rest, hparts, hgroup, _⟩
  · exact hnil
  · exact absurd hgroup (h parameters (hparts ▸ List.prefix_append parameters rest))

/-- The search for the partner of a bracket answers the least offset up to which as many brackets
are closed as opened, in any bytes. Its count never goes below zero, so that it need not stop there,
and brackets of ASCII are found in a text where they are found in its bytes. Type parameters end at
the partner of their first bracket: a header is left with what follows them, and with nothing if
there is no partner. -/
theorem isPartnerAt_and_afterParameters_group :
    (∀ {opening closing : UInt8} {bytes : List UInt8} {start : Nat}, opening ≠ closing →
        bytes[start]? = some opening →
        IsPartnerAt opening closing bytes start (partnerByte? opening closing bytes start) ∧
          partnerByte? opening closing bytes start =
            signedClosingFrom opening closing 0 start (bytes.drop start)) ∧
      (∀ {opening closing : Char}, opening.toNat < 128 → closing.toNat < 128 → ∀ before cs,
        partner? opening closing (byteLength before) cs =
          partnerByte? opening.toUInt8 closing.toUInt8 (bytesOf (before ++ cs))
            (byteLength before)) ∧
      (∀ {gap parameters : List Char}, (∀ c ∈ gap, isBlank c = true) →
        IsGroup '<' '>' parameters → ∀ rest, afterParameters (gap ++ (parameters ++ rest)) = rest) ∧
      ∀ {gap cs : List Char}, (∀ c ∈ gap, isBlank c = true) →
        (∀ parameters, parameters <+: '<' :: cs → ¬IsGroup '<' '>' parameters) →
        afterParameters (gap ++ '<' :: cs) = [] := by
  refine ⟨fun hne hstart => ⟨?_, ?_⟩, ?_, ?_, ?_⟩
  · exact isPartnerAt_partnerByte? hne hstart
  · exact partnerByte?_eq_signedClosingFrom hstart
  · exact partner?_eq_partnerByte?
  · exact afterParameters_group
  · exact afterParameters_of_not_isGroup

/-- The parentheses of a text with characters of two bytes. -/
def nestedParentheses : List UInt8 := bytesOf "é(a(b)ü)c)".toList

theorem isPartnerAt_and_afterParameters_group_nested :
    nestedParentheses[2]? = some 40 ∧ IsGroup '<' '>' "<T extends List<T>>".toList ∧
      (∀ front ∈ "<T extends List<T>".toList.inits, ¬IsGroup '<' '>' front) ∧
      IsLeast (evenOffsets 40 41 nestedParentheses 2) 9 ∧
      afterParameters " <T extends List<T>> implements A".toList = " implements A".toList ∧
      afterParameters "\t<T extends List<T>".toList = [] := by
  have hstart : nestedParentheses[2]? = some 40 := by decide
  have hgroup : IsGroup '<' '>' "<T extends List<T>>".toList := by decide
  have hnone : ∀ front ∈ "<T extends List<T>".toList.inits, ¬IsGroup '<' '>' front := by decide
  obtain ⟨hbytes, _, hclosed, hunclosed⟩ := isPartnerAt_and_afterParameters_group
  refine ⟨hstart, hgroup, hnone, ?_, ?_, ?_⟩
  · exact ((hbytes (by decide) hstart).1.some_iff 9).mp (by decide)
  · exact @hclosed [' '] _ (by decide) hgroup " implements A".toList
  · exact @hunclosed ['\t'] _ (by decide) fun parameters hprefix =>
      hnone parameters ((List.mem_inits _ _).mpr hprefix)

end ClassDiagram.TypeList

import JsonPatch.Corpus
import JsonPatch.Proofs.Pointer.Codec
import JsonPatch.Proofs.Pointer.Index
import JsonPatch.Proofs.Wire

namespace JsonPatch

namespace Pointer

/-- Whether a token is spelled as it stands. -/
def IsPlain (token : String) : Prop := ∀ c ∈ token.toList, c ≠ '~' ∧ c ≠ '/'

theorem isPlain_append {first second : String} (hfirst : IsPlain first) (hsecond : IsPlain second) :
    IsPlain (first ++ second) := by
  intro c hc
  rw [String.toList_append, List.mem_append] at hc
  exact hc.elim (hfirst c) (hsecond c)

theorem isPlain_toString (n : Nat) : IsPlain (toString n) := by
  intro c hc
  have hdigits : (toString n).toList = Nat.toDigits 10 n := Nat.toList_repr
  rw [hdigits] at hc
  have hdigit := Nat.isDigit_of_mem_toDigits (by decide) (by decide) hc
  constructor
  · rintro rfl
    simp at hdigit
  · rintro rfl
    simp at hdigit

theorem encode_append (first second : List String) :
    encode (first ++ second) = encode first ++ encode second := by
  simp only [encode, List.flatMap_append, String.ofList_append]

theorem encode_singleton {token : String} (h : IsPlain token) : encode [token] = "/" ++ token := by
  rw [← String.toList_inj]
  simp [encode, escapeChars_of_plain h]

theorem obtainable_spell {tokens : List String} (h : ∀ token ∈ tokens, token ≠ "") :
    (spell tokens).Obtainable := .parse (parse_encode h)

theorem tokens_spell_singleton (last : String) : (spell [last]).tokens = [] ++ [last] := rfl

theorem tokens_spell_concat (place : List String) (last : String) :
    (spell (place ++ [last])).tokens = place ++ [last] := rfl

theorem tokens_spell_pair (first last : String) :
    (spell [first, last]).tokens = [first] ++ [last] := rfl

end Pointer

namespace Fixture

open Pointer (spell)

/-- The number of a count. -/
def count (n : Nat) : Node := .number (Number.ofUInt64 (UInt64.ofNat n))

theorem count_toJson (n : Nat) : (count n).toJson = Json.ofNat n := by
  have hnonneg : (0 : Int) ≤ (UInt64.ofNat n).toNat := Int.natCast_nonneg _
  simp only [count, Node.toJson, Json.ofNat, Number.ofUInt64, Number.toNumeral, if_pos hnonneg,
    Int.toNat_natCast, UInt64.ofNat_toNat]

/-- Whether an operation can be built and can be read from its wire form. -/
def IsSound (operation : Operation) : Prop :=
  operation.Obtainable ∧ operation.isExpressible = true

theorem isSound_of {operation : Operation} (hpath : operation.path.Obtainable)
    (hsource : ∀ source ∈ operation.source?, source.Obtainable)
    (hvalue : ∀ value ∈ operation.value?, value.Ordered ∧ value.isNull = false) :
    IsSound operation := by
  have hnull : operation.value?.any Node.isNull = false := by
    cases h : operation.value? with
    | none => rfl
    | some value => exact (hvalue value h).2
  refine ⟨⟨hpath, hsource, fun value hv => (hvalue value hv).1⟩, ?_⟩
  simp [Operation.isExpressible, hnull]

/-- The fixture of a document and operations. -/
def spelled (document : Node) (operations : List Operation) : Fixture :=
  ⟨document.toJson, .array (operations.map Operation.toJson)⟩

theorem load_spelled {document : Node} {operations : List Operation} (hdocument : document.Ordered)
    (hne : operations ≠ []) (hoperations : ∀ operation ∈ operations, IsSound operation) :
    (spelled document operations).load = .ok (document, ⟨operations, hne⟩) := by
  have hread : (Patch.readJson (Patch.toJson ⟨operations, hne⟩)).outcome =
      .ok ⟨operations, hne⟩ := by
    rw [Patch.readJson_toJson_outcome fun operation ho => (hoperations operation ho).1, if_pos]
    exact List.all_eq_true.mpr fun operation ho => (hoperations operation ho).2
  change (do
    let document ← (Node.ofJson document.toJson).mapError FixtureError.document
    let patch ← (Patch.readJson (Patch.toJson ⟨operations, hne⟩)).outcome.mapError .patch
    return (document, patch)) = _
  rw [Node.ofJson_toJson document hdocument, hread]
  rfl

end Fixture

end JsonPatch

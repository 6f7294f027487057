import Mathlib.Data.List.Basic

/-!
# Cutting a stream into items

A cutter looks at the front of a stream and cuts one item off it, asks for more input, or refuses
it. More input never changes what was cut off or refused, so parsing what arrived so far, and the
rest of it again with what arrives next, is parsing everything at once.
-/

namespace Library

/-- What the front of a stream holds. -/
inductive Cut (β α ε : Type)
  | more
  | item (value : α) (rest : List β)
  | bad (error : ε)

/-- A way to cut items off a stream that input arriving later does not change. -/
structure Cutter (β α ε : Type) where
  cut : List β → Cut β α ε
  shorter : ∀ {input value rest}, cut input = .item value rest → rest.length < input.length
  item_append : ∀ {input value rest} (later : List β), cut input = .item value rest →
    cut (input ++ later) = .item value (rest ++ later)
  bad_append : ∀ {input error} (later : List β), cut input = .bad error →
    cut (input ++ later) = .bad error

namespace Cutter

variable {β α ε : Type} (cutter : Cutter β α ε)

/-- The items of a stream, and what is left of it: an incomplete item, or one that was refused
with the stream from there on. -/
def parse (input : List β) : List α × Except (ε × List β) (List β) :=
  match h : cutter.cut input with
  | .more => ([], .ok input)
  | .bad error => ([], .error (error, input))
  | .item value rest =>
    have := cutter.shorter h
    (value :: (parse rest).1, (parse rest).2)
termination_by input.length

variable {cutter} {input rest : List β} {value : α} {error : ε}

/-- A stream that begins with an incomplete item has no items. -/
theorem parse_more (h : cutter.cut input = .more) : cutter.parse input = ([], .ok input) := by
  rw [parse]
  split <;> simp_all

/-- A stream that is refused has no items. -/
theorem parse_bad (h : cutter.cut input = .bad error) :
    cutter.parse input = ([], .error (error, input)) := by
  rw [parse]
  split <;> simp_all

/-- A stream that begins with an item has its items after it. -/
theorem parse_item (h : cutter.cut input = .item value rest) :
    cutter.parse input = (value :: (cutter.parse rest).1, (cutter.parse rest).2) := by
  rw [parse]
  split <;> simp_all

variable (cutter) in
/-- Induction over the items of a stream. -/
theorem parse_induction {motive : List β → Prop}
    (more : ∀ input, cutter.cut input = .more → motive input)
    (bad : ∀ input error, cutter.cut input = .bad error → motive input)
    (item : ∀ input value rest, cutter.cut input = .item value rest → motive rest → motive input)
    (input : List β) : motive input := by
  induction hlength : input.length using Nat.strongRecOn generalizing input with
  | ind length ih =>
    cases hcut : cutter.cut input with
    | more => exact more input hcut
    | bad error => exact bad input error hcut
    | item value rest =>
      exact item input value rest hcut (ih rest.length (hlength ▸ cutter.shorter hcut) rest rfl)

/-- What a parse leaves over begins with an incomplete item. -/
theorem cut_of_parse_ok (h : (cutter.parse input).2 = .ok rest) : cutter.cut rest = .more := by
  induction input using cutter.parse_induction with
  | more input hcut =>
    rw [parse_more hcut] at h
    exact Except.ok.inj h ▸ hcut
  | bad input error hcut =>
    rw [parse_bad hcut] at h
    cases h
  | item input value rest' hcut ih =>
    rw [parse_item hcut] at h
    exact ih h

/-- What a parse refuses begins with an item that is refused. -/
theorem cut_of_parse_error (h : (cutter.parse input).2 = .error (error, rest)) :
    cutter.cut rest = .bad error := by
  induction input using cutter.parse_induction with
  | more input hcut =>
    rw [parse_more hcut] at h
    cases h
  | bad input error' hcut =>
    rw [parse_bad hcut] at h
    obtain ⟨rfl, rfl⟩ := Prod.mk.inj (Except.error.inj h)
    exact hcut
  | item input value rest' hcut ih =>
    rw [parse_item hcut] at h
    exact ih h

/-- Input that arrives later continues the parse from what was left over. -/
theorem parse_append_of_ok (later : List β) (h : (cutter.parse input).2 = .ok rest) :
    cutter.parse (input ++ later) =
      ((cutter.parse input).1 ++ (cutter.parse (rest ++ later)).1,
        (cutter.parse (rest ++ later)).2) := by
  induction input using cutter.parse_induction with
  | more input hcut =>
    rw [parse_more hcut] at h ⊢
    obtain rfl := Except.ok.inj h
    rfl
  | bad input error hcut =>
    rw [parse_bad hcut] at h
    cases h
  | item input value rest' hcut ih =>
    rw [parse_item hcut] at h ⊢
    rw [parse_item (cutter.item_append later hcut), ih h]
    rfl

/-- Input that arrives after a refusal changes nothing. -/
theorem parse_append_of_error (later : List β)
    (h : (cutter.parse input).2 = .error (error, rest)) :
    cutter.parse (input ++ later) =
      ((cutter.parse input).1, .error (error, rest ++ later)) := by
  induction input using cutter.parse_induction with
  | more input hcut =>
    rw [parse_more hcut] at h
    cases h
  | bad input error' hcut =>
    rw [parse_bad hcut] at h ⊢
    obtain ⟨rfl, rfl⟩ := Prod.mk.inj (Except.error.inj h)
    rw [parse_bad (cutter.bad_append later hcut)]
  | item input value rest' hcut ih =>
    rw [parse_item hcut] at h ⊢
    rw [parse_item (cutter.item_append later hcut), ih h]

end Cutter

end Library

/-
  Encodings that can be read off the front of a string.

  `Delimited r P encode` is about the values in `P`: in whatever string it stands, the code of such
  a value says where it ends and, up to `r`, which value it is. Sequences of such codes then
  determine the sequence of values as soon as its length is known.
-/
import Mathlib.Data.List.Forall2

namespace Codec

variable {α β : Type} {r : α → α → Prop} {P : α → Prop} {encode : α → List β}

def Delimited (r : α → α → Prop) (P : α → Prop) (encode : α → List β) : Prop :=
  ∀ a b rest rest', P a → P b → encode a ++ rest = encode b ++ rest' → r a b ∧ rest = rest'

theorem Delimited.of_eq (h : Delimited r P encode) {a b : α} (ha : P a) (hb : P b)
    (heq : encode a = encode b) : r a b :=
  (h a b [] [] ha hb (by rw [heq])).1

theorem Delimited.flatMap (h : Delimited r P encode) {as bs : List α} {rest rest' : List β}
    (has : ∀ a ∈ as, P a) (hbs : ∀ b ∈ bs, P b) (hlen : as.length = bs.length)
    (heq : as.flatMap encode ++ rest = bs.flatMap encode ++ rest') :
    List.Forall₂ r as bs ∧ rest = rest' := by
  induction as generalizing bs with
  | nil =>
    have hnil : bs = [] := List.eq_nil_of_length_eq_zero hlen.symm
    subst hnil
    exact ⟨.nil, heq⟩
  | cons a as ih =>
    cases bs with
    | nil => cases hlen
    | cons b bs =>
      rw [List.flatMap_cons, List.flatMap_cons, List.append_assoc, List.append_assoc] at heq
      obtain ⟨hab, htail⟩ := h a b _ _ (has a List.mem_cons_self) (hbs b List.mem_cons_self) heq
      obtain ⟨hlist, hrest⟩ := ih (fun c hc => has c (List.mem_cons_of_mem _ hc))
        (fun c hc => hbs c (List.mem_cons_of_mem _ hc)) (Nat.succ.inj hlen) htail
      exact ⟨.cons hab hlist, hrest⟩

theorem Delimited.list (h : Delimited (· = ·) P encode) {as bs : List α} {rest rest' : List β}
    (has : ∀ a ∈ as, P a) (hbs : ∀ b ∈ bs, P b) (hlen : as.length = bs.length)
    (heq : as.flatMap encode ++ rest = bs.flatMap encode ++ rest') : as = bs ∧ rest = rest' := by
  obtain ⟨hall, hrest⟩ := h.flatMap has hbs hlen heq
  rw [List.forall₂_eq_eq_eq] at hall
  exact ⟨hall, hrest⟩

/-- Codes of lists whose length is written in front, in a code of its own. -/
theorem Delimited.counted (h : Delimited r P encode) {count : Nat → List β} {bound : Nat}
    (hcount : Delimited (· = ·) (· < bound) count) :
    Delimited (List.Forall₂ r) (fun as => as.length < bound ∧ ∀ a ∈ as, P a)
      (fun as => count as.length ++ as.flatMap encode) := by
  intro as bs rest rest' has hbs heq
  rw [List.append_assoc, List.append_assoc] at heq
  obtain ⟨hlen, heq⟩ := hcount _ _ _ _ has.1 hbs.1 heq
  exact h.flatMap has.2 hbs.2 hlen heq

end Codec

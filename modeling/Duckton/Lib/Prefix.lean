/-
  Common beginnings of equally long keys, and how a set of keyed entries splits after one.

  This is the arithmetic of a binary radix tree: where a node forks (`Splits`), that the fork
  point depends on the keys alone, and what the two branches below it hold.
-/
import Mathlib.Data.List.Nodup
import Mathlib.Data.List.Perm.Basic

namespace Prefix

variable {α : Type}

/-! ## Longest common prefix of two keys -/

section Lcp

variable [DecidableEq α]

/-- The length of the longest common prefix. -/
def lcp : List α → List α → Nat
  | a :: as, b :: bs => if a = b then lcp as bs + 1 else 0
  | _, _ => 0

theorem lcp_cons_self (a : α) (as bs : List α) : lcp (a :: as) (a :: bs) = lcp as bs + 1 := by
  rw [lcp, if_pos rfl]

theorem lcp_cons_ne {a b : α} (h : a ≠ b) (as bs : List α) : lcp (a :: as) (b :: bs) = 0 := by
  rw [lcp, if_neg h]

theorem take_lcp (as bs : List α) : as.take (lcp as bs) = bs.take (lcp as bs) := by
  induction as generalizing bs with
  | nil => cases bs <;> rfl
  | cons a as ih =>
    cases bs with
    | nil => rfl
    | cons b bs =>
      by_cases h : a = b
      · subst h
        rw [lcp_cons_self, List.take_succ_cons, List.take_succ_cons, ih]
      · rw [lcp_cons_ne h]
        rfl

/-- Cutting a key short cuts the common prefix short. -/
theorem lcp_take (l : Nat) (as bs : List α) : lcp (as.take l) bs = min l (lcp as bs) := by
  induction as generalizing l bs with
  | nil => cases bs <;> simp [lcp]
  | cons a as ih =>
    cases l with
    | zero => simp [lcp]
    | succ l =>
      cases bs with
      | nil => simp [lcp]
      | cons b bs =>
        rw [List.take_succ_cons]
        by_cases h : a = b
        · subst h
          rw [lcp_cons_self, lcp_cons_self, ih, Nat.succ_min_succ]
        · rw [lcp_cons_ne h, lcp_cons_ne h]
          exact (Nat.min_zero _).symm

/-- Distinct keys of one length differ right after their common prefix. -/
theorem drop_lcp {as bs : List α} (hlen : as.length = bs.length) (hne : as ≠ bs) :
    ∃ a b as' bs', as.drop (lcp as bs) = a :: as' ∧ bs.drop (lcp as bs) = b :: bs' ∧ a ≠ b := by
  induction as generalizing bs with
  | nil =>
    cases bs with
    | nil => exact absurd rfl hne
    | cons b bs => cases hlen
  | cons a as ih =>
    cases bs with
    | nil => cases hlen
    | cons b bs =>
      by_cases h : a = b
      · subst h
        rw [lcp_cons_self, List.drop_succ_cons, List.drop_succ_cons]
        refine ih (Nat.succ.inj hlen) fun heq => hne ?_
        rw [heq]
      · rw [lcp_cons_ne h]
        exact ⟨a, b, as, bs, rfl, rfl, h⟩

end Lcp

/-! ## Common prefix of a list of keys -/

/-- All keys agree on their first `l` letters. -/
def Common (keys : List (List α)) (l : Nat) : Prop :=
  ∀ k ∈ keys, ∀ k' ∈ keys, k.take l = k'.take l

variable {keys : List (List α)} {l : Nat}

theorem Common.mono {l' : Nat} (h : Common keys l') (hl : l ≤ l') :
    Common keys l := by
  intro k hk k' hk'
  have heq := congrArg (List.take l) (h k hk k' hk')
  rwa [List.take_take, List.take_take, Nat.min_eq_left hl] at heq

theorem Common.of_head {first : List α} {rest : List (List α)}
    (h : ∀ k ∈ rest, first.take l = k.take l) : Common (first :: rest) l := by
  have hall : ∀ k ∈ first :: rest, first.take l = k.take l := List.forall_mem_cons.mpr ⟨rfl, h⟩
  intro k hk k' hk'
  rw [← hall k hk, hall k' hk']

/-- The keys agree up to `l` and two of them differ there. -/
structure Splits (keys : List (List α)) (l : Nat) : Prop where
  common : Common keys l
  differ : ∃ k ∈ keys, ∃ k' ∈ keys, ∃ a b as bs, k.drop l = a :: as ∧ k'.drop l = b :: bs ∧ a ≠ b

theorem take_succ_of_drop {k : List α} {a : α} {as : List α} (h : k.drop l = a :: as) :
    k.take (l + 1) = k.take l ++ [a] := by
  rw [List.take_add_one, ← List.head?_drop, h]
  rfl

/-- No longer prefix is common. -/
theorem Splits.not_common_succ (h : Splits keys l) :
    ¬ Common keys (l + 1) := by
  intro hc
  obtain ⟨k, hk, k', hk', a, b, as, bs, ha, hb, hne⟩ := h.differ
  have heq := hc k hk k' hk'
  rw [take_succ_of_drop ha, take_succ_of_drop hb, h.common k hk k' hk',
    List.append_cancel_left_eq] at heq
  exact hne (List.cons.inj heq).1

/-- The point where keys split depends on the set of keys only. -/
theorem Splits.unique {keys' : List (List α)} {l' : Nat} (h : Splits keys l)
    (h' : Splits keys' l') (hmem : ∀ k, k ∈ keys ↔ k ∈ keys') : l = l' := by
  have hcommon : ∀ {m}, Common keys m ↔ Common keys' m := by
    intro m
    unfold Common
    simp only [hmem]
  rcases Nat.lt_trichotomy l l' with hlt | heq | hgt
  · exact absurd (hcommon.mpr (h'.common.mono hlt)) h.not_common_succ
  · exact heq
  · exact absurd (hcommon.mp (h.common.mono hgt)) h'.not_common_succ

section MinLcp

variable [DecidableEq α]

/-- The least of the prefixes that `first` shares with each of the others. -/
def minLcp (first : List α) : (rest : List (List α)) → (bound : Nat) → Nat
  | [], l => l
  | k :: rest, l => minLcp first rest (min l (lcp first k))

variable (first : List α) (rest : List (List α))

theorem minLcp_le (l : Nat) :
    minLcp first rest l ≤ l ∧ ∀ k ∈ rest, minLcp first rest l ≤ lcp first k := by
  induction rest generalizing l with
  | nil => exact ⟨Nat.le_refl l, fun k hk => by cases hk⟩
  | cons k rest ih =>
    obtain ⟨hle, hall⟩ := ih (min l (lcp first k))
    refine ⟨Nat.le_trans hle (Nat.min_le_left _ _), List.forall_mem_cons.mpr ⟨?_, hall⟩⟩
    exact Nat.le_trans hle (Nat.min_le_right _ _)

theorem minLcp_attained (l : Nat) :
    minLcp first rest l = l ∨ ∃ k ∈ rest, minLcp first rest l = lcp first k := by
  induction rest generalizing l with
  | nil => exact .inl rfl
  | cons k rest ih =>
    rcases ih (min l (lcp first k)) with h | ⟨k', hk', h⟩
    · rcases Nat.le_total l (lcp first k) with hle | hle
      · rw [minLcp, h, Nat.min_eq_left hle]
        exact .inl rfl
      · refine .inr ⟨k, List.mem_cons_self, ?_⟩
        rw [minLcp, h, Nat.min_eq_right hle]
    · exact .inr ⟨k', List.mem_cons_of_mem _ hk', h⟩

/-- Two or more distinct keys of one length split at the least shared prefix. -/
theorem splits_minLcp {n : Nat} {first second : List α} {rest : List (List α)}
    (hlen : ∀ k ∈ first :: second :: rest, k.length = n)
    (hnodup : (first :: second :: rest).Nodup) :
    Splits (first :: second :: rest) (minLcp first (second :: rest) first.length) := by
  obtain ⟨_, hall⟩ := minLcp_le first (second :: rest) first.length
  have hfirst : first.length = n := hlen first List.mem_cons_self
  have hdiffer : ∀ k ∈ second :: rest, first ≠ k := by
    rintro k hk rfl
    exact (List.nodup_cons.mp hnodup).1 hk
  have hcommon : Common (first :: second :: rest)
      (minLcp first (second :: rest) first.length) := by
    refine Common.of_head fun k hk => ?_
    have heq := congrArg (List.take (minLcp first (second :: rest) first.length))
      (take_lcp first k)
    rwa [List.take_take, List.take_take, Nat.min_eq_left (hall k hk)] at heq
  refine ⟨hcommon, ?_⟩
  have hex : ∃ k ∈ second :: rest,
      minLcp first (second :: rest) first.length = lcp first k := by
    rcases minLcp_attained first (second :: rest) first.length with h | h
    · -- then `first` would agree with `second` entirely
      have hle := hall second List.mem_cons_self
      have heq := take_lcp first second
      rw [h] at hle
      rw [List.take_of_length_le hle, List.take_of_length_le
        (by rw [hlen second (by simp), ← hfirst]; exact hle)] at heq
      exact absurd heq (hdiffer second List.mem_cons_self)
    · exact h
  obtain ⟨k, hk, heq⟩ := hex
  have hlenk : first.length = k.length := by
    rw [hfirst, hlen k (List.mem_cons_of_mem _ hk)]
  obtain ⟨a, b, as, bs, ha, hb, hne⟩ := drop_lcp hlenk (hdiffer k hk)
  rw [heq]
  exact ⟨first, List.mem_cons_self, k, List.mem_cons_of_mem _ hk, a, b, as, bs, ha, hb, hne⟩

end MinLcp

/-! ## Entries under equally long keys -/

section Entries

variable {β : Type}

/-- Distinct keys of length `n`. -/
structure Keyed (n : Nat) (es : List (List α × β)) : Prop where
  length : ∀ e ∈ es, e.1.length = n
  nodup : (es.map Prod.fst).Nodup

variable {n : Nat} {es es' : List (List α × β)} {e f : List α × β}

theorem Keyed.perm (h : Keyed n es) (hp : es.Perm es') :
    Keyed n es' :=
  ⟨fun e he => h.length e (hp.mem_iff.mpr he), (hp.map Prod.fst).nodup_iff.mp h.nodup⟩

theorem Keyed.nodup_entries (h : Keyed n es) : es.Nodup :=
  List.Nodup.of_map Prod.fst h.nodup

variable [DecidableEq α]

/-- An entry whose key has `x` at position `l`, under what follows it. -/
def below (x : α) (l : Nat) (e : List α × β) : Option (List α × β) :=
  match e.1.drop l with
  | y :: rest => if y = x then some (rest, e.2) else none
  | [] => none

variable {x : α} {l : Nat}

theorem below_eq_some_iff :
    below x l e = some f ↔ e.1.drop l = x :: f.1 ∧ e.2 = f.2 := by
  unfold below
  constructor
  · intro h
    split at h
    · rename_i y rest hdrop
      split at h
      · rename_i hy
        cases h
        exact ⟨by rw [hdrop, hy], rfl⟩
      · cases h
    · cases h
  · rintro ⟨hdrop, hval⟩
    rw [hdrop]
    dsimp only
    rw [if_pos rfl, hval]

/-- The entries with `x` at position `l`. -/
def branch (x : α) (l : Nat) (es : List (List α × β)) : List (List α × β) :=
  es.filterMap (below x l)

theorem mem_branch_iff :
    f ∈ branch x l es ↔ ∃ e ∈ es, e.1.drop l = x :: f.1 ∧ e.2 = f.2 := by
  unfold branch
  rw [List.mem_filterMap]
  exact exists_congr fun e => and_congr_right fun _ => below_eq_some_iff

/-- With the common prefix `p`, a branch holds exactly the entries below `p` and `x`. -/
theorem mem_branch {p : List α} (hp : ∀ e ∈ es, e.1.take l = p) {k : List α} {v : β} :
    (k, v) ∈ branch x l es ↔ (p ++ x :: k, v) ∈ es := by
  rw [mem_branch_iff]
  constructor
  · rintro ⟨e, he, hdrop, hval⟩
    have hkey : e.1 = p ++ x :: k := by
      rw [← List.take_append_drop l e.1, hp e he, hdrop]
    have hv : v = e.2 := hval.symm
    rw [← hkey, hv]
    exact he
  · intro he
    refine ⟨_, he, ?_, rfl⟩
    have htake := hp _ he
    have hl : l = p.length := by
      have hlen := congrArg List.length htake
      rw [List.length_take, List.length_append, List.length_cons] at hlen
      omega
    rw [hl, List.drop_left]

theorem branch_perm (h : es.Perm es') :
    (branch x l es).Perm (branch x l es') :=
  h.filterMap _

theorem Keyed.branch (h : Keyed n es) (hl : l < n) (hc : Common (es.map Prod.fst) l) (x : α) :
    Keyed (n - l - 1) (branch x l es) := by
  constructor
  · intro f hf
    obtain ⟨e, he, hdrop, _⟩ := mem_branch_iff.mp hf
    have hlen := congrArg List.length hdrop
    rw [List.length_drop, h.length e he, List.length_cons] at hlen
    omega
  · have hpair : es.Pairwise fun e e' => e.1 ≠ e'.1 := List.pairwise_map.mp h.nodup
    unfold List.Nodup Prefix.branch
    rw [List.pairwise_map, List.pairwise_filterMap]
    refine hpair.imp_of_mem fun {e e'} he he' hne f hf f' hf' heq => hne ?_
    have htake : e.1.take l = e'.1.take l :=
      hc e.1 (List.mem_map_of_mem he) e'.1 (List.mem_map_of_mem he')
    rw [← List.take_append_drop l e.1, ← List.take_append_drop l e'.1, htake,
      (below_eq_some_iff.mp hf).1, (below_eq_some_iff.mp hf').1, heq]

end Entries

/-! ## Binary keys -/

section Binary

variable {β : Type}

variable {es : List (List Bool × β)}

variable {n : Nat}

theorem Splits.lt_length (h : Keyed n es) (hs : Splits (es.map Prod.fst) l) :
    l < n := by
  obtain ⟨k, hk, _, _, a, _, as, _, ha, _, _⟩ := hs.differ
  obtain ⟨e, he, rfl⟩ := List.mem_map.mp hk
  have hlen := congrArg List.length ha
  rw [List.length_drop, h.length e he, List.length_cons] at hlen
  omega

/-- Of two different bits one is `0` and the other `1`, so neither branch is empty. -/
theorem Splits.branch_ne_nil (hs : Splits (es.map Prod.fst) l) (b : Bool) :
    branch b l es ≠ [] := by
  obtain ⟨k, hk, k', hk', x, y, xs, ys, hx, hy, hne⟩ := hs.differ
  obtain ⟨e, he, rfl⟩ := List.mem_map.mp hk
  obtain ⟨e', he', rfl⟩ := List.mem_map.mp hk'
  have hmem : ∃ f, f ∈ branch b l es := by
    by_cases hb : x = b
    · exact ⟨(xs, e.2), mem_branch_iff.mpr ⟨e, he, by rw [hx, hb], rfl⟩⟩
    · have hb' : y = b := by
        cases b <;> cases x <;> cases y <;> simp_all
      exact ⟨(ys, e'.2), mem_branch_iff.mpr ⟨e', he', by rw [hy, hb'], rfl⟩⟩
  obtain ⟨f, hf⟩ := hmem
  exact List.ne_nil_of_mem hf

/-- Keys that repeat in no branch do not repeat: equal keys fall into the same one. -/
theorem Keyed.of_branches (hlen : ∀ e ∈ es, e.1.length = n) (hl : l < n)
    (h : ∀ b, ((Prefix.branch b l es).map Prod.fst).Nodup) : Keyed n es := by
  refine ⟨hlen, ?_⟩
  have hpair : ∀ b, es.Pairwise fun e e' =>
      ∀ f, below b l e = some f → ∀ f', below b l e' = some f' → f.1 ≠ f'.1 := by
    intro b
    have hb := h b
    unfold List.Nodup Prefix.branch at hb
    rw [List.pairwise_map, List.pairwise_filterMap] at hb
    exact hb
  unfold List.Nodup
  rw [List.pairwise_map]
  refine ((hpair false).and (hpair true)).imp_of_mem fun {e e'} he _ hboth heq => ?_
  have hle : l < e.1.length := by rw [hlen e he]; exact hl
  have hdrop := List.drop_eq_getElem_cons hle
  have hb : ∀ b, e.1[l] = b → below b l e = some (e.1.drop (l + 1), e.2) ∧
      below b l e' = some (e.1.drop (l + 1), e'.2) := by
    intro b hb
    rw [below_eq_some_iff, below_eq_some_iff, ← heq, hdrop, hb]
    exact ⟨⟨rfl, rfl⟩, rfl, rfl⟩
  cases hbit : e.1[l] with
  | false => exact hboth.1 _ (hb false hbit).1 _ (hb false hbit).2 rfl
  | true => exact hboth.2 _ (hb true hbit).1 _ (hb true hbit).2 rfl

/-- The two branches put back under the common prefix are the entries again. -/
theorem branches_perm {p : List Bool} (h : Keyed n es) (hl : l < n)
    (hc : Common (es.map Prod.fst) l) (hp : ∀ e ∈ es, e.1.take l = p) :
    ((branch false l es).map (fun e => (p ++ false :: e.1, e.2)) ++
      (branch true l es).map (fun e => (p ++ true :: e.1, e.2))).Perm es := by
  have hinj : ∀ b : Bool, Function.Injective
      fun e : List Bool × β => (p ++ b :: e.1, e.2) := by
    intro b e e' heq
    rw [Prod.mk.injEq, List.append_cancel_left_eq, List.cons.injEq] at heq
    exact Prod.ext heq.1.2 heq.2
  have hmem : ∀ (b : Bool) (f : List Bool × β),
      f ∈ (branch b l es).map (fun e => (p ++ b :: e.1, e.2)) ↔
        f ∈ es ∧ ∃ k, f.1 = p ++ b :: k := by
    intro b f
    rw [List.mem_map]
    constructor
    · rintro ⟨⟨k, v⟩, hkv, rfl⟩
      exact ⟨(mem_branch hp).mp hkv, k, rfl⟩
    · rintro ⟨hf, k, hk⟩
      refine ⟨(k, f.2), (mem_branch hp).mpr ?_, ?_⟩
      · rw [← hk]
        exact hf
      · rw [← hk]
  refine (List.perm_ext_iff_of_nodup ?_ h.nodup_entries).mpr fun f => ?_
  · refine List.Nodup.append (((h.branch hl hc false).nodup_entries).map (hinj false))
      (((h.branch hl hc true).nodup_entries).map (hinj true)) ?_
    intro f hf hf'
    obtain ⟨_, k, hk⟩ := (hmem false f).mp hf
    obtain ⟨_, k', hk'⟩ := (hmem true f).mp hf'
    rw [hk, List.append_cancel_left_eq] at hk'
    cases hk'
  · rw [List.mem_append, hmem, hmem]
    constructor
    · rintro (⟨hf, _⟩ | ⟨hf, _⟩) <;> exact hf
    · intro hf
      have hlen : l < f.1.length := by rw [h.length f hf]; exact hl
      have hkey : f.1 = p ++ f.1[l] :: f.1.drop (l + 1) := by
        conv_lhs => rw [← List.take_append_drop l f.1, hp f hf, List.drop_eq_getElem_cons hlen]
      cases hb : f.1[l] with
      | false =>
        rw [hb] at hkey
        exact .inl ⟨hf, _, hkey⟩
      | true =>
        rw [hb] at hkey
        exact .inr ⟨hf, _, hkey⟩

end Binary

end Prefix

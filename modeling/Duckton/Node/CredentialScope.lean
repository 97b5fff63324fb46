/-
  The scope of the credential that goes out with a job (node/coordinator.rs: `credential_prefix`;
  node/datasource.rs: `scope_url`).

  The prefix is the longest common one of the pinned objects' URIs, cut after its last slash.
  Objects of one container share its root, and the scope stays inside. Objects of different
  containers may share no more than the scheme; that prefix is not empty either, so it is issued
  all the same, and the scope minted from it covers the whole provider.
  `credential_contained_iff` separates the two.
-/
import Mathlib.Data.List.DropRight
import Duckton.Lib.Text

namespace Duckton.Node

/-- The characters that the two texts have in common at their start. -/
def commonWith (common uri : List Char) : List Char :=
  ((common.zip uri).takeWhile fun p => p.1 = p.2).map Prod.fst

/-- Up to the last slash and with it. -/
def cutAtSlash (common : List Char) : List Char :=
  if '/' ∈ common then common.rdropWhile (· ≠ '/') else common

/-- `credential_prefix`, of the URIs of the snapshot's objects. -/
def credentialPrefix : List (List Char) → List Char
  | [] => []
  | first :: uris => cutAtSlash (uris.foldl commonWith first)

/-- The prefix that a scoped secret is issued for: any that is not empty. -/
def issuedPrefix (uris : List (List Char)) : Option (List Char) :=
  if credentialPrefix uris = [] then none else some (credentialPrefix uris)

def scopeUrl (scheme text : List Char) : List Char :=
  let p := Text.trim text
  let url :=
    if Text.contains "://".toList p then p
    else scheme ++ "://".toList ++ p.dropWhile (· = '/')
  if url.getLast? = some '/' then url else url ++ ['/']

/-- A scheme or the name of a container. -/
def IsName (s : List Char) : Prop :=
  s ≠ [] ∧ ∀ c ∈ s, c ≠ '/' ∧ ¬ Text.isWhitespace c

/-- `scheme://bucket/` -/
def IsRoot (r : List Char) : Prop :=
  ∃ scheme bucket, IsName scheme ∧ IsName bucket ∧ r = scheme ++ "://".toList ++ bucket ++ ['/']

/-- The text starts with the root of a container. -/
def InContainer (text : List Char) : Prop :=
  ∃ r, IsRoot r ∧ r <+: text

section Common

variable {r : List Char}

theorem isPrefix_commonWith_iff {common uri : List Char} :
    r <+: commonWith common uri ↔ r <+: common ∧ r <+: uri := by
  induction r generalizing common uri with
  | nil => simp
  | cons c r ih =>
    cases common with
    | nil => simp [commonWith]
    | cons a common =>
      cases uri with
      | nil => simp [commonWith]
      | cons b uri =>
        have hstep : commonWith (a :: common) (b :: uri) =
            if a = b then a :: commonWith common uri else [] := by
          by_cases hab : a = b <;> simp [commonWith, hab]
        rw [hstep, List.cons_prefix_cons, List.cons_prefix_cons]
        split
        · next hab =>
          rw [List.cons_prefix_cons, ih, hab]
          tauto
        · next hab =>
          simp only [List.prefix_nil, reduceCtorEq, false_iff]
          rintro ⟨⟨rfl, -⟩, rfl, -⟩
          exact hab rfl

theorem isPrefix_foldl_iff {first : List Char} {uris : List (List Char)} :
    r <+: uris.foldl commonWith first ↔ ∀ u ∈ first :: uris, r <+: u := by
  induction uris generalizing first with
  | nil => simp
  | cons u uris ih =>
    rw [List.foldl_cons, ih, List.forall_mem_cons, isPrefix_commonWith_iff]
    simp only [List.forall_mem_cons, and_assoc]

end Common

section Cut

variable {l : List Char}

theorem cutAtSlash_isPrefix : cutAtSlash l <+: l := by
  unfold cutAtSlash
  split
  · exact List.rdropWhile_prefix _ _
  · exact List.prefix_rfl

/-- What ends in a slash is not cut. -/
theorem isPrefix_cutAtSlash {s : List Char} (h : s ++ ['/'] <+: l) :
    s ++ ['/'] <+: cutAtSlash l := by
  obtain ⟨t, rfl⟩ := h
  have hslash : '/' ∈ s ++ ['/'] ++ t := by simp
  rw [cutAtSlash, if_pos hslash, List.rdropWhile, ← List.reverse_suffix, List.reverse_reverse]
  simp only [List.reverse_append, List.dropWhile_append]
  split
  · simp
  · exact List.suffix_append _ _

theorem cutAtSlash_ne_nil_iff : cutAtSlash l ≠ [] ↔ ∃ c, [c] <+: l := by
  constructor
  · intro h
    obtain ⟨c, rest, hcut⟩ := List.exists_cons_of_ne_nil h
    exact ⟨c, List.IsPrefix.trans ⟨rest, hcut.symm⟩ cutAtSlash_isPrefix⟩
  · rintro ⟨c, t, rfl⟩
    by_cases hslash : '/' ∈ [c] ++ t
    · obtain ⟨before, after, hl⟩ := List.append_of_mem hslash
      rw [List.append_cons] at hl
      have hcut := isPrefix_cutAtSlash ⟨after, hl.symm⟩
      intro h
      rw [h, List.prefix_nil] at hcut
      simp at hcut
    · rw [cutAtSlash, if_neg hslash]
      exact List.cons_ne_nil c t

end Cut

/-- The scope of a prefix inside a container is that prefix. -/
theorem scopeUrl_cutAtSlash {l : List Char} (scheme : List Char) (h : InContainer (cutAtSlash l)) :
    scopeUrl scheme (cutAtSlash l) = cutAtSlash l := by
  obtain ⟨_, ⟨name, bucket, ⟨hne, hname⟩, -, rfl⟩, rest, hcut⟩ := h
  have hslash : '/' ∈ l := cutAtSlash_isPrefix.subset (hcut ▸ by simp)
  have hlast : ∀ hcut : cutAtSlash l ≠ [], (cutAtSlash l).getLast hcut = '/' := by
    rw [cutAtSlash, if_pos hslash]
    intro hcut
    simpa using List.rdropWhile_last_not (· ≠ '/') l hcut
  obtain ⟨c, name, rfl⟩ := List.exists_cons_of_ne_nil hne
  have hfirst : (cutAtSlash l).dropWhile Text.isWhitespace = cutAtSlash l := by
    rw [← hcut]
    exact List.dropWhile_cons_of_neg (hname c List.mem_cons_self).2
  have htrim : Text.trim (cutAtSlash l) = cutAtSlash l := by
    refine (congrArg (List.rdropWhile _) hfirst).trans ?_
    refine List.rdropWhile_eq_self_iff.mpr fun hne => ?_
    rw [hlast hne]
    decide
  have hcontains : Text.contains "://".toList (cutAtSlash l) = true := by
    refine decide_eq_true ⟨c :: name, bucket ++ ['/'] ++ rest, ?_⟩
    rw [← hcut]
    simp
  have hend : (cutAtSlash l).getLast? = some '/' := by
    have hne : cutAtSlash l ≠ [] := by simp [← hcut]
    rw [List.getLast?_eq_some_getLast hne, hlast hne]
  unfold scopeUrl
  dsimp only
  rw [htrim, if_pos hcontains, if_pos hend]

/-- The prefix covers the objects. It is kept inside a container, and its scope with it, just if the
    objects share the root of one; or else they share not even a character, and none is issued. -/
theorem credential_contained_iff (uris : List (List Char)) (hne : uris ≠ []) :
    ((∀ u ∈ uris, credentialPrefix uris <+: u) ∧
      ∀ p, issuedPrefix uris = some p →
        InContainer p ∧ ∀ scheme, InContainer (scopeUrl scheme p)) ↔
    (∃ r, IsRoot r ∧ ∀ u ∈ uris, r <+: u) ∨ ¬ ∃ c, ∀ u ∈ uris, [c] <+: u := by
  obtain ⟨first, uris, rfl⟩ := List.exists_cons_of_ne_nil hne
  have hroot : InContainer (credentialPrefix (first :: uris)) ↔
      ∃ r, IsRoot r ∧ ∀ u ∈ first :: uris, r <+: u := by
    refine exists_congr fun r => and_congr_right ?_
    rintro ⟨scheme, bucket, -, -, rfl⟩
    rw [← isPrefix_foldl_iff]
    exact ⟨fun h => h.trans cutAtSlash_isPrefix, isPrefix_cutAtSlash⟩
  have hcovers : ∀ u ∈ first :: uris, credentialPrefix (first :: uris) <+: u :=
    isPrefix_foldl_iff.mp cutAtSlash_isPrefix
  have hshared : (∃ c, ∀ u ∈ first :: uris, [c] <+: u) ↔ credentialPrefix (first :: uris) ≠ [] := by
    simp only [← isPrefix_foldl_iff, ← cutAtSlash_ne_nil_iff]
    rfl
  rw [and_iff_right hcovers, ← hroot, hshared, not_not]
  constructor
  · intro h
    by_contra hnot
    rw [not_or] at hnot
    exact hnot.1 (h _ (if_neg hnot.2)).1
  · intro h p hp
    rw [issuedPrefix, Option.ite_none_left_eq_some] at hp
    obtain ⟨hissued, ⟨⟩⟩ := hp
    have hin := h.resolve_right hissued
    refine ⟨hin, fun scheme => ?_⟩
    rw [credentialPrefix, scopeUrl_cutAtSlash scheme hin]
    exact hin

/-- Two objects of one bucket. -/
theorem bucket_contained :
    issuedPrefix ["s3://lake/day=1/a.parquet".toList, "s3://lake/day=2/b.parquet".toList] =
        some "s3://lake/".toList ∧
      InContainer "s3://lake/".toList ∧
      InContainer (scopeUrl "s3".toList "s3://lake/".toList) := by
  have hissued : issuedPrefix ["s3://lake/day=1/a.parquet".toList,
      "s3://lake/day=2/b.parquet".toList] = some "s3://lake/".toList := by decide
  have hroot : IsRoot "s3://lake/".toList :=
    ⟨"s3".toList, "lake".toList, ⟨by decide, by simp [Text.isWhitespace]⟩,
      ⟨by decide, by simp [Text.isWhitespace]⟩, rfl⟩
  obtain ⟨hin, hscope⟩ := ((credential_contained_iff _ (List.cons_ne_nil _ _)).mpr
    (.inl ⟨"s3://lake/".toList, hroot, by decide⟩)).2 _ hissued
  exact ⟨hissued, hin, hscope _⟩

/-- With a bucket each, a credential is issued for the scheme, and its scope covers every URI of the
    provider. -/
theorem two_buckets_cover_provider :
    issuedPrefix ["s3://lake/a.parquet".toList, "s3://raw/b.parquet".toList] =
        some "s3://".toList ∧
      scopeUrl "s3".toList "s3://".toList = "s3://".toList ∧ ¬ InContainer "s3://".toList := by
  refine ⟨by decide, by decide, ?_⟩
  rintro ⟨_, ⟨scheme, bucket, -, -, rfl⟩, h⟩
  -- a root has three slashes
  have hcount := h.sublist.count_le '/'
  simp only [List.count_append] at hcount
  have htwo : "s3://".toList.count '/' = 2 ∧ "://".toList.count '/' = 2 := by decide
  have hone : ['/'].count '/' = 1 := rfl
  omega

end Duckton.Node

/-
  The binding store (config/binding.rs): which wallet each node id is bound to, kept in a TOML file.

  A wallet is kept as the text it was given in, so one account may be bound under several texts.
  `bind` replaces what an id was bound to, so no id is bound twice in a store that only it has
  written (`DistinctIds.bind`); a file that was edited by hand may be otherwise.
-/
import Duckton.Config.Store
import Duckton.Settlement.WalletText

namespace Duckton.Config

open Duckton.Proto

/-! ## Entries -/

structure BindingEntry where
  nodeId : String
  wallet : String
  bindingHash : String
  ts : UInt64
  deriving DecidableEq, Repr

/-- The store is its file: none that can be read, or one that is parsed or not. -/
structure BindingStore where
  file : Option (Except String (Table F64))

/-- A text field of an entry, empty where it is missing or not a text. -/
def Table.text (t : Table F64) (key : String) : String :=
  match t.get key with
  | some (.string s) => s
  | _ => ""

/-- An entry of the file; none without a node or a wallet. -/
def BindingEntry.ofTable (t : Table F64) : Option BindingEntry :=
  let nodeId := t.text "node_id"
  let wallet := t.text "wallet"
  if nodeId.isEmpty || wallet.isEmpty then none
  else
    let ts := match t.get "ts" with
      | some (.integer i) => i
      | _ => 0
    some ⟨nodeId, wallet, t.text "binding_hash", UInt64.ofInt ts⟩

def BindingEntry.toTable (e : BindingEntry) : Table F64 :=
  [("binding_hash", .string e.bindingHash), ("node_id", .string e.nodeId),
    ("ts", .integer e.ts.toBitVec.toInt), ("wallet", .string e.wallet)]

def BindingEntry.ofValue : Value F64 → Option BindingEntry
  | .table t => ofTable t
  | _ => none

namespace BindingStore

/-- No operation fails with an error of the typed configuration. -/
abbrev Result := Except (StoreError Empty)

variable (bs : BindingStore)

def read : Result (List BindingEntry) :=
  match bs.file with
  | none => .ok []
  | some (.error e) => .error (.badParam s!"bindings file is corrupt: {e}")
  | some (.ok table) =>
    match table.get "entry" with
    | some (.array entries) => .ok (entries.filterMap BindingEntry.ofValue)
    | _ => .ok []

/-- `write` to a directory that can be written to. -/
def write (entries : List BindingEntry) : BindingStore :=
  ⟨some (.ok [("entry", .array (entries.map fun e => .table e.toTable))])⟩

def list : Result (List BindingEntry) :=
  bs.read

def get (nodeId : String) : Result (Option BindingEntry) :=
  bs.read.map fun entries => entries.find? (·.nodeId == nodeId)

def trimmed (s : String) : String :=
  String.ofList (Text.trim s.toList)

def bind (bs : BindingStore) (nodeId wallet bindingHash : String) (ts : UInt64) :
    Result BindingStore := do
  if (trimmed nodeId).isEmpty || (trimmed wallet).isEmpty then
    throw (.badParam "bind: node_id and wallet must be non-empty")
  let entries ← bs.read
  return write (entries.filter (·.nodeId != trimmed nodeId) ++
    [⟨trimmed nodeId, trimmed wallet, trimmed bindingHash, ts⟩])

/-- The text under which an id is bound. -/
def walletOf (nodeId : String) : Option String :=
  match bs.get nodeId with
  | .ok entry => entry.map (·.wallet)
  | .error _ => none

/-- The account an id is bound to, whatever the text. -/
def accountOf (nodeId : String) : Option Ton.WalletAddress :=
  (bs.walletOf nodeId).bind Settlement.fromAnyStr

/-- The ids bound under a text, in the order of the file. -/
def idsUnder (wallet : String) : List NodeId :=
  match bs.list with
  | .ok entries => (entries.filter (·.wallet == wallet)).map fun e => ⟨e.nodeId⟩
  | .error _ => []

variable {bs : BindingStore} {nodeId wallet : String}

/-- An id is among those bound under its text. -/
theorem mem_idsUnder (h : bs.walletOf nodeId = some wallet) : ⟨nodeId⟩ ∈ bs.idsUnder wallet := by
  unfold walletOf get at h
  unfold idsUnder list
  cases hread : bs.read with
  | error e => simp [hread, Except.map] at h
  | ok entries =>
    simp only [hread, Except.map, Option.map_eq_some_iff] at h
    obtain ⟨e, hfind, rfl⟩ := h
    have hid : e.nodeId = nodeId := by simpa using List.find?_some hfind
    exact List.mem_map.mpr
      ⟨e, List.mem_filter.mpr ⟨List.mem_of_find?_eq_some hfind, beq_self_eq_true _⟩,
        congrArg NodeId.mk hid⟩

/-- No id is bound twice. -/
def DistinctIds (bs : BindingStore) : Prop :=
  ∀ entries, bs.read = .ok entries → (entries.map (·.nodeId)).Nodup

theorem ofTable_toTable {e : BindingEntry} (hid : e.nodeId.isEmpty = false)
    (hwallet : e.wallet.isEmpty = false) : BindingEntry.ofTable e.toTable = some e := by
  have hts : UInt64.ofInt e.ts.toBitVec.toInt = e.ts := by
    have hmod : (e.ts.toBitVec.toInt % 2 ^ 64).toNat = e.ts.toNat := by
      rw [BitVec.toInt_eq_toNat_cond]
      show _ = e.ts.toBitVec.toNat
      split <;> omega
    rw [UInt64.ofInt, hmod]
    exact UInt64.ofNat_toNat
  have hguard : (e.nodeId.isEmpty || e.wallet.isEmpty) = false := by rw [hid, hwallet]; rfl
  show (if e.nodeId.isEmpty || e.wallet.isEmpty then none
    else some (⟨e.nodeId, e.wallet, e.bindingHash, UInt64.ofInt e.ts.toBitVec.toInt⟩ :
      BindingEntry)) = some e
  rw [hguard, hts]
  rfl

/-- What was written is read back. -/
theorem read_write {entries : List BindingEntry}
    (h : ∀ e ∈ entries, e.nodeId.isEmpty = false ∧ e.wallet.isEmpty = false) :
    (write entries).read = .ok entries := by
  show Except.ok ((entries.map fun e => Value.table e.toTable).filterMap BindingEntry.ofValue) = _
  rw [List.filterMap_map]
  congr 1
  induction entries with
  | nil => rfl
  | cons e entries ih =>
    obtain ⟨hid, hwallet⟩ := h e List.mem_cons_self
    have hrest := ih fun e' he' => h e' (List.mem_cons_of_mem _ he')
    have hentry : (BindingEntry.ofValue ∘ fun e => Value.table e.toTable) e = some e :=
      ofTable_toTable hid hwallet
    rw [List.filterMap_cons_some hentry, hrest]

/-- An id is bound under one text. -/
theorem DistinctIds.text_unique (h : bs.DistinctIds) {id : NodeId}
    {wallet' : String} (hid : id ∈ bs.idsUnder wallet) (hid' : id ∈ bs.idsUnder wallet') :
    wallet = wallet' := by
  unfold idsUnder list at hid hid'
  cases hread : bs.read with
  | error e => simp [hread] at hid
  | ok entries =>
    simp only [hread, List.mem_map, List.mem_filter, beq_iff_eq] at hid hid'
    obtain ⟨e, ⟨he, rfl⟩, rfl⟩ := hid
    obtain ⟨e', ⟨he', rfl⟩, hsame⟩ := hid'
    rw [List.inj_on_of_nodup_map (h entries hread) he' he (NodeId.mk.inj hsame)]

end BindingStore

end Duckton.Config

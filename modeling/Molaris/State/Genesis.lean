import Molaris.Common
import Mathlib.Data.List.AList

/-!
# Genesis import and export of the state plugin

`InitGenesis` writes an alloc into the state plugin's store: per account, a fresh account record,
then its code, its storage slots and its nonce. `ExportGenesis` reads the store back into a fresh
alloc in two passes, one over the storage slots and one over the codes, each merging into the
account the other may already have built.

Both passes are folds of a callback over keyed entries in which each key comes once, so each
address (or slot) ends with what its own entry wrote: `foldl_keyed` says this once, and the
lemmas about either pass only say what one callback does. From them, `InitGenesis` followed by
`ExportGenesis` gives back the code, storage and nonce of every account that has code or storage.
-/

namespace Molaris.State

/-- Modelled from the spec: `core.GenesisAccount` is go-ethereum's type, not under the sources.
`none` stands for Go's nil code, storage map and balance; the defaults are
`core.GenesisAccount{}`. The private key, which neither genesis pass reads or writes, is left
out. -/
structure GenesisAccount where
  code : Option (List UInt8) := none
  storage : Option (AList fun _ : Hash => Hash) := none
  balance : Option Int := none
  nonce : Nat := 0

/-- Modelled from the spec: `core.GenesisAlloc`, go-ethereum's map from address to account. -/
abbrev GenesisAlloc := AList fun _ : Address => GenesisAccount

/-- The value the account's storage map holds for `key`; a nil map and a missing key both read
`none`. -/
def GenesisAccount.slot (account : GenesisAccount) (key : Hash) : Option Hash :=
  account.storage.bind fun storage => storage.lookup key

/-- The value the alloc's account at `address` holds for `key`. -/
def GenesisAlloc.slot (alloc : GenesisAlloc) (address : Address) (key : Hash) : Option Hash :=
  (alloc.lookup address).bind fun account => account.slot key

/-- What a slot reads after `SetState` writes `value` to it: nothing for the zero hash. -/
def storedSlot (value : Hash) : Option Hash :=
  if value = zeroHash then none else some value

/-- Modelled from the spec: the state plugin's store, as the genesis passes see it; the plugin
itself is not under the sources, and the spec calls this "simple key-value state". It keeps the
code `SetCode` wrote for an address, the non-zero storage slots, and the account nonces. -/
structure Plugin where
  codes : AList fun _ : Address => List UInt8
  states : AList fun _ : Address × Hash => Hash
  nonces : Address → Nat

namespace Plugin

/-- Modelled from the spec: `CreateAccount` creates the account record, with nonce zero. -/
def createAccount (p : Plugin) (address : Address) : Plugin :=
  { p with nonces := Function.update p.nonces address 0 }

/-- Modelled from the spec: `SetCode` records the code of `address`. -/
def setCode (p : Plugin) (address : Address) (code : List UInt8) : Plugin :=
  { p with codes := p.codes.insert address code }

/-- Modelled from the spec: `SetState` writes a storage slot; a zero value clears it, as a slot
that reads zero is no slot in EVM storage. -/
def setState (p : Plugin) (address : Address) (key value : Hash) : Plugin :=
  { p with states := if value = zeroHash then p.states.erase (address, key)
      else p.states.insert (address, key) value }

/-- Modelled from the spec: `SetNonce`. -/
def setNonce (p : Plugin) (address : Address) (nonce : Nat) : Plugin :=
  { p with nonces := Function.update p.nonces address nonce }

/-- Modelled from the spec: `GetCode`, nil for an address with no code. -/
def getCode (p : Plugin) (address : Address) : Option (List UInt8) :=
  p.codes.lookup address

/-- Modelled from the spec: `GetNonce`. -/
def getNonce (p : Plugin) (address : Address) : Nat :=
  p.nonces address

/-- Modelled from the spec: `IterateState`, over every slot of the store, with the callback's
writes threaded through `init`. The callbacks of `ExportGenesis` never stop the iteration. -/
def iterateState {α : Type} (p : Plugin) (fn : α → Address → Hash → Hash → α) (init : α) : α :=
  p.states.entries.foldl (fun acc slot => fn acc slot.1.1 slot.1.2 slot.2) init

/-- Modelled from the spec: `IterateCode`, over every address with code. The callback of
`ExportGenesis` reads the code through `GetCode`, so the code hash it is passed is left out. -/
def iterateCode {α : Type} (p : Plugin) (fn : α → Address → α) (init : α) : α :=
  p.codes.entries.foldl (fun acc code => fn acc code.1) init

/-- The body of `InitGenesis`'s loop, for one account of the alloc. Its `SetBalance` call is
commented out in the source, so the account's balance is not written, though the comment over
the loop says that it sets the balances. -/
def initAccount (p : Plugin) (address : Address) (account : GenesisAccount) : Plugin :=
  let p := p.createAccount address
  let p := match account.code with
    | some code => p.setCode address code
    | none => p
  let p := match account.storage with
    | some storage => storage.entries.foldl (fun p slot => p.setState address slot.1 slot.2) p
    | none => p
  if account.nonce ≠ 0 then p.setNonce address account.nonce else p

/-- `plugin.InitGenesis`, given the alloc of the genesis it is passed. `Reset` and `Finalize`
bracket the pass in one snapshot scope and change nothing it writes, so they are left out. -/
def initGenesis (p : Plugin) (alloc : GenesisAlloc) : Plugin :=
  alloc.entries.foldl (fun p account => p.initAccount account.1 account.2)
    (p.createAccount reservedAddress)

/-- The `IterateState` callback of `ExportGenesis`, for the slot `key` of `address` holding
`value`. `getBalance` is the balance `GetBalance` reads. -/
def exportState (p : Plugin) (getBalance : Address → Int) (alloc : GenesisAlloc)
    (address : Address) (key value : Hash) : GenesisAlloc :=
  let account := (alloc.lookup address).getD {}
  let storage := (account.storage.getD ∅).insert key value
  alloc.insert address { account with
    storage := some storage, code := p.getCode address, balance := some (getBalance address),
    nonce := p.getNonce address }

/-- The `IterateCode` callback of `ExportGenesis`, for `address`. -/
def exportCode (p : Plugin) (alloc : GenesisAlloc) (address : Address) : GenesisAlloc :=
  let account := (alloc.lookup address).getD {}
  alloc.insert address { account with
    code := p.getCode address, nonce := p.getNonce address,
    balance := some (account.balance.getD 0) }

/-- `plugin.ExportGenesis`: the alloc it leaves in the genesis it is passed. -/
def exportGenesis (p : Plugin) (getBalance : Address → Int) : GenesisAlloc :=
  let alloc := p.iterateState (exportState p getBalance) ∅
  p.iterateCode (exportCode p) alloc

end Plugin

section Keyed

theorem foldl_keyed {σ κ α β : Type} [DecidableEq κ] (read : σ → κ → β) (step : σ → κ → α → σ)
    (update : α → β → β)
    (frame : ∀ s key a other,
      read (step s key a) other = if other = key then update a (read s other) else read s other)
    {entries : List (Σ _ : κ, α)} (nodup : entries.NodupKeys) (s : σ) (key : κ) :
    read (entries.foldl (fun s entry => step s entry.1 entry.2) s) key =
      ((entries.dlookup key).map fun a => update a (read s key)).getD (read s key) := by
  induction entries generalizing s with
  | nil => rfl
  | cons entry rest induction =>
      obtain ⟨first, a⟩ := entry
      obtain ⟨fresh, tail⟩ := List.nodupKeys_cons.mp nodup
      rw [List.foldl_cons, induction tail, frame]
      by_cases same : key = first
      · subst same
        simp [List.dlookup_eq_none.mpr fresh]
      · simp [List.dlookup_cons_ne rest ⟨first, a⟩ same, same]

theorem mem_foldl_insert {α : Type} (step : GenesisAlloc → α → GenesisAlloc) (key : α → Address)
    (mem_step : ∀ alloc entry other, other ∈ step alloc entry ↔ other = key entry ∨ other ∈ alloc)
    (entries : List α) (alloc : GenesisAlloc) (address : Address) :
    address ∈ entries.foldl step alloc ↔ address ∈ alloc ∨ address ∈ entries.map key := by
  induction entries generalizing alloc with
  | nil => simp
  | cons entry rest induction =>
      rw [List.foldl_cons, induction, mem_step, List.map_cons, List.mem_cons,
        @or_comm (address = key entry), or_assoc]

end Keyed

namespace Plugin

section Steps

variable (p : Plugin) (address other : Address)

@[simp] theorem codes_createAccount : (p.createAccount address).codes = p.codes := rfl
@[simp] theorem states_createAccount : (p.createAccount address).states = p.states := rfl
@[simp] theorem codes_setCode (code : List UInt8) :
    (p.setCode address code).codes = p.codes.insert address code := rfl
@[simp] theorem states_setCode (code : List UInt8) : (p.setCode address code).states = p.states :=
  rfl
@[simp] theorem nonces_setCode (code : List UInt8) : (p.setCode address code).nonces = p.nonces :=
  rfl
@[simp] theorem codes_setState (key value : Hash) :
    (p.setState address key value).codes = p.codes := rfl
@[simp] theorem nonces_setState (key value : Hash) :
    (p.setState address key value).nonces = p.nonces := rfl
@[simp] theorem codes_setNonce (nonce : Nat) : (p.setNonce address nonce).codes = p.codes := rfl
@[simp] theorem states_setNonce (nonce : Nat) : (p.setNonce address nonce).states = p.states :=
  rfl

theorem getNonce_createAccount :
    (p.createAccount address).getNonce other = if other = address then 0 else p.getNonce other :=
  Function.update_apply ..

theorem getNonce_setNonce (nonce : Nat) :
    (p.setNonce address nonce).getNonce other =
      if other = address then nonce else p.getNonce other :=
  Function.update_apply ..

theorem lookup_setState (key value : Hash) (slot : Address × Hash) :
    (p.setState address key value).states.lookup slot =
      if slot = (address, key) then storedSlot value else p.states.lookup slot := by
  by_cases same : slot = (address, key)
  · subst same
    by_cases zero : value = zeroHash <;>
      simp [setState, storedSlot, zero, AList.lookup_erase, AList.lookup_insert]
  · by_cases zero : value = zeroHash <;>
      simp [setState, zero, same, AList.lookup_erase_ne same, AList.lookup_insert_ne same]

@[simp] theorem codes_foldl_setState (slots : List (Σ _ : Hash, Hash)) :
    (slots.foldl (fun p slot => p.setState address slot.1 slot.2) p).codes = p.codes := by
  induction slots generalizing p <;> simp [*]

@[simp] theorem nonces_foldl_setState (slots : List (Σ _ : Hash, Hash)) :
    (slots.foldl (fun p slot => p.setState address slot.1 slot.2) p).nonces = p.nonces := by
  induction slots generalizing p <;> simp [*]

theorem lookup_foldl_setState (storage : AList fun _ : Hash => Hash) (key : Hash) :
    (storage.entries.foldl (fun p slot => p.setState address slot.1 slot.2) p).states.lookup
        (other, key) =
      if other = address then
        ((storage.lookup key).map storedSlot).getD (p.states.lookup (other, key))
      else p.states.lookup (other, key) := by
  split_ifs with same
  · subst same
    exact foldl_keyed (fun p key => p.states.lookup (other, key))
      (fun p key value => p.setState other key value) (fun value _ => storedSlot value)
      (fun _ _ _ _ => by simp [lookup_setState]) storage.nodupKeys p key
  · exact List.foldlRecOn
      (motive := fun q : Plugin => q.states.lookup (other, key) = p.states.lookup (other, key))
      _ _ _ rfl fun q kept _ _ => by
        simp only [lookup_setState, Prod.mk.injEq, same, false_and, if_false, kept]

end Steps

section InitGenesis

variable (p : Plugin) (address other : Address) (account : GenesisAccount)

theorem codes_initAccount :
    (p.initAccount address account).codes =
      (account.code.map fun code => p.codes.insert address code).getD p.codes := by
  obtain ⟨_ | code, _ | storage, balance, nonce⟩ := account <;>
    simp only [initAccount] <;> split_ifs <;> simp

theorem nonces_initAccount :
    (p.initAccount address account).nonces = Function.update p.nonces address account.nonce := by
  obtain ⟨_ | code, _ | storage, balance, nonce⟩ := account <;> by_cases zero : nonce = 0 <;>
    simp [initAccount, createAccount, setNonce, zero]

theorem lookup_initAccount (key : Hash) :
    (p.initAccount address account).states.lookup (other, key) =
      if other = address then ((account.slot key).map storedSlot).getD (p.states.lookup (other, key))
      else p.states.lookup (other, key) := by
  obtain ⟨_ | code, _ | storage, balance, nonce⟩ := account <;> by_cases zero : nonce = 0 <;>
    simp [initAccount, zero, lookup_foldl_setState, GenesisAccount.slot]

theorem getCode_initAccount :
    (p.initAccount address account).getCode other =
      if other = address then account.code.or (p.getCode other) else p.getCode other := by
  obtain ⟨_ | code, storage, balance, nonce⟩ := account
  · simp [getCode, codes_initAccount]
  · by_cases same : other = address
    · subst same
      simp [getCode, codes_initAccount, AList.lookup_insert]
    · simp [getCode, codes_initAccount, same, AList.lookup_insert_ne same]

theorem getNonce_initAccount :
    (p.initAccount address account).getNonce other =
      if other = address then account.nonce else p.getNonce other := by
  rw [getNonce, nonces_initAccount, Function.update_apply, getNonce]

theorem getCode_initGenesis (alloc : GenesisAlloc) :
    (p.initGenesis alloc).getCode address =
      ((alloc.lookup address).bind (·.code)).or (p.getCode address) := by
  rw [initGenesis, foldl_keyed getCode initAccount (fun account old => account.code.or old)
    (fun _ _ _ _ => getCode_initAccount ..) alloc.nodupKeys]
  unfold AList.lookup
  cases alloc.entries.dlookup address <;> rfl

theorem getNonce_initGenesis (alloc : GenesisAlloc) :
    (p.initGenesis alloc).getNonce address =
      ((alloc.lookup address).map (·.nonce)).getD
        ((p.createAccount reservedAddress).getNonce address) :=
  foldl_keyed getNonce initAccount (fun account _ => account.nonce)
    (fun _ _ _ _ => getNonce_initAccount ..) alloc.nodupKeys _ address

theorem lookup_initGenesis (alloc : GenesisAlloc) (key : Hash) :
    (p.initGenesis alloc).states.lookup (address, key) =
      ((alloc.lookup address).map fun account =>
        ((account.slot key).map storedSlot).getD (p.states.lookup (address, key))).getD
        (p.states.lookup (address, key)) :=
  foldl_keyed (fun p address => p.states.lookup (address, key)) initAccount
    (fun account old => ((account.slot key).map storedSlot).getD old)
    (fun _ _ _ _ => lookup_initAccount ..) alloc.nodupKeys _ address

theorem getCode_initGenesis_of_empty (alloc : GenesisAlloc) (noCode : p.codes = ∅) :
    (p.initGenesis alloc).getCode address = (alloc.lookup address).bind (·.code) := by
  rw [getCode_initGenesis, getCode, noCode, AList.lookup_empty, Option.or_none]

theorem lookup_initGenesis_of_nonzero (alloc : GenesisAlloc) (noStorage : p.states = ∅)
    (values : ∀ address key value, alloc.slot address key = some value → value ≠ zeroHash)
    (key : Hash) :
    (p.initGenesis alloc).states.lookup (address, key) = alloc.slot address key := by
  rw [lookup_initGenesis, noStorage, AList.lookup_empty, GenesisAlloc.slot]
  cases found : alloc.lookup address with
  | none => rfl
  | some account =>
      cases held : account.slot key with
      | none => simp [held]
      | some value =>
          have nonzero := values address key value (by simp [GenesisAlloc.slot, found, held])
          simp [held, storedSlot, nonzero]

end InitGenesis

section ExportGenesis

variable (p : Plugin) (getBalance : Address → Int)

/-- Every account of `alloc` carries the store's code and nonce for its address, and the balance
`GetBalance` reads when it has storage, zero otherwise. -/
def CarriesStore (alloc : GenesisAlloc) : Prop :=
  ∀ address account, alloc.lookup address = some account →
    account.code = p.getCode address ∧ account.nonce = p.getNonce address ∧
      account.balance = some (if account.storage.isSome then getBalance address else 0)

variable (alloc : GenesisAlloc) (address other : Address)

theorem mem_exportState (key value : Hash) :
    other ∈ p.exportState getBalance alloc address key value ↔ other = address ∨ other ∈ alloc :=
  AList.mem_insert _

theorem mem_exportCode : other ∈ p.exportCode alloc address ↔ other = address ∨ other ∈ alloc :=
  AList.mem_insert _

theorem lookup_storage_getD (found : Option GenesisAccount) (key : Hash) :
    ((found.getD {}).storage.getD ∅).lookup key = found.bind (·.slot key) := by
  rcases found with _ | ⟨code, _ | storage, balance, nonce⟩ <;> rfl

theorem slot_exportState (key value key' : Hash) :
    (p.exportState getBalance alloc address key value).slot other key' =
      if (other, key') = (address, key) then some value else alloc.slot other key' := by
  by_cases same : other = address
  · subst same
    simp only [exportState, GenesisAlloc.slot, AList.lookup_insert, Option.some_bind,
      GenesisAccount.slot, Prod.mk.injEq, true_and]
    by_cases sameKey : key' = key
    · rw [if_pos sameKey, sameKey, AList.lookup_insert]
    · rw [if_neg sameKey, AList.lookup_insert_ne sameKey, lookup_storage_getD]
      rfl
  · simp [exportState, GenesisAlloc.slot, same, AList.lookup_insert_ne same]

theorem slot_exportCode (key : Hash) :
    (p.exportCode alloc address).slot other key = alloc.slot other key := by
  by_cases same : other = address
  · subst same
    simp only [exportCode, GenesisAlloc.slot, AList.lookup_insert, Option.some_bind]
    cases alloc.lookup other <;> rfl
  · simp [exportCode, GenesisAlloc.slot, AList.lookup_insert_ne same]

variable {p getBalance alloc}

theorem CarriesStore.exportState (carries : p.CarriesStore getBalance alloc) (key value : Hash) :
    p.CarriesStore getBalance (p.exportState getBalance alloc address key value) := by
  intro other account found
  by_cases same : other = address
  · subst same
    simp only [Plugin.exportState, AList.lookup_insert, Option.some.injEq] at found
    simp [← found]
  · rw [Plugin.exportState, AList.lookup_insert_ne same] at found
    exact carries other account found

theorem CarriesStore.exportCode (carries : p.CarriesStore getBalance alloc) :
    p.CarriesStore getBalance (p.exportCode alloc address) := by
  intro other account found
  by_cases same : other = address
  · subst same
    simp only [Plugin.exportCode, AList.lookup_insert, Option.some.injEq] at found
    subst found
    cases previous : alloc.lookup other with
    | none => simp
    | some account => simp [(carries other account previous).2.2]
  · rw [Plugin.exportCode, AList.lookup_insert_ne same] at found
    exact carries other account found

variable (p getBalance)

theorem mem_exportGenesis :
    address ∈ p.exportGenesis getBalance ↔ address ∈ p.codes ∨ ∃ key, (address, key) ∈ p.states := by
  rw [exportGenesis, iterateCode, mem_foldl_insert
    (fun alloc (code : Σ _ : Address, List UInt8) => p.exportCode alloc code.1)
    (·.1) fun _ _ _ => mem_exportCode .., iterateState,
    mem_foldl_insert (fun alloc (slot : Σ _ : Address × Hash, Hash) =>
      p.exportState getBalance alloc slot.1.1 slot.1.2 slot.2)
    (·.1.1) fun _ _ _ => mem_exportState ..]
  simp only [AList.mem_keys, AList.keys, List.keys, List.mem_map, AList.empty_entries,
    List.not_mem_nil, false_and, exists_false, false_or]
  rw [or_comm]
  exact or_congr Iff.rfl ⟨fun ⟨slot, member, same⟩ => ⟨slot.1.2, slot, member, by rw [← same]⟩,
    fun ⟨_, slot, member, same⟩ => ⟨slot, member, by rw [same]⟩⟩

theorem slot_exportGenesis (key : Hash) :
    (p.exportGenesis getBalance).slot address key = p.states.lookup (address, key) := by
  have codePass : ∀ alloc : GenesisAlloc,
      (p.iterateCode p.exportCode alloc).slot address key = alloc.slot address key := fun alloc =>
    List.foldlRecOn (motive := fun after : GenesisAlloc =>
        after.slot address key = alloc.slot address key) _ _ _ rfl
      fun _ kept _ _ => (slot_exportCode ..).trans kept
  have statePass := foldl_keyed (fun alloc slot => GenesisAlloc.slot alloc slot.1 slot.2)
    (fun alloc slot value => p.exportState getBalance alloc slot.1 slot.2 value)
    (fun value _ => some value)
    (fun _ _ _ _ => by beta_reduce; rw [slot_exportState, Prod.mk.eta, Prod.mk.eta])
    p.states.nodupKeys ∅ (address, key)
  rw [exportGenesis, codePass]
  refine statePass.trans ?_
  unfold AList.lookup
  cases p.states.entries.dlookup (address, key) <;> rfl

theorem carriesStore_exportGenesis : p.CarriesStore getBalance (p.exportGenesis getBalance) :=
  List.foldlRecOn (motive := p.CarriesStore getBalance) _ _ _
    (List.foldlRecOn (motive := p.CarriesStore getBalance) _ _ _
      (fun _ _ found => by simp at found)
      fun _ carries slot _ => carries.exportState slot.1.1 slot.1.2 slot.2)
    fun _ carries code _ => carries.exportCode code.1

theorem storage_exportGenesis {address : Address} {account : GenesisAccount}
    (found : (p.exportGenesis getBalance).lookup address = some account)
    (held : account.storage.isSome) : ∃ key, (address, key) ∈ p.states := by
  let HasSlots := fun alloc : GenesisAlloc => ∀ address account,
    alloc.lookup address = some account → account.storage.isSome → ∃ key, (address, key) ∈ p.states
  have statePass : HasSlots (p.iterateState (p.exportState getBalance) ∅) :=
    List.foldlRecOn (motive := HasSlots) _ _ _ (fun _ _ found => by simp at found)
      fun alloc slots slot member other account found held => by
        by_cases same : other = slot.1.1
        · subst same
          exact ⟨slot.1.2, AList.mem_keys.mpr (List.mem_keys_of_mem member)⟩
        · rw [exportState, AList.lookup_insert_ne same] at found
          exact slots other account found held
  refine List.foldlRecOn (motive := HasSlots) _ _ _ statePass
    (fun alloc slots code _ other account found held => ?_) address account found held
  by_cases same : other = code.1
  · subst same
    simp only [exportCode, AList.lookup_insert, Option.some.injEq] at found
    subst found
    cases previous : alloc.lookup code.1 with
    | none => simp [previous] at held
    | some account => exact slots _ account previous (by simpa [previous] using held)
  · rw [exportCode, AList.lookup_insert_ne same] at found
    exact slots other account found held

end ExportGenesis

end Plugin

/-- `InitGenesis` of an alloc into a store with no code and no storage, then `ExportGenesis`, for
an alloc whose storage values are non-zero and whose codes are nil or non-empty: the exported
addresses are those of the alloc's accounts with non-empty code or non-empty storage, and each
exported account has the code (nil read as empty), the storage slots and the nonce of its
account in the alloc. -/
theorem init_export_genesis_round_trip (p : Plugin) (alloc : GenesisAlloc)
    (getBalance : Address → Int) (noCode : p.codes = ∅) (noStorage : p.states = ∅)
    (codes : ∀ address account, alloc.lookup address = some account → account.code ≠ some [])
    (values : ∀ address key value, alloc.slot address key = some value → value ≠ zeroHash) :
    let exported := (p.initGenesis alloc).exportGenesis getBalance
    (∀ address, address ∈ exported ↔ ∃ account, alloc.lookup address = some account ∧
        (account.code.getD [] ≠ [] ∨ ∃ key, (account.slot key).isSome)) ∧
      ∀ address account exportedAccount, alloc.lookup address = some account →
        exported.lookup address = some exportedAccount →
        exportedAccount.code.getD [] = account.code.getD [] ∧
          (∀ key, exportedAccount.slot key = account.slot key) ∧
          exportedAccount.nonce = account.nonce := by
  intro exported
  have code := fun address => Plugin.getCode_initGenesis_of_empty p address alloc noCode
  have slot := fun address => Plugin.lookup_initGenesis_of_nonzero p address alloc noStorage values
  refine ⟨fun address => ?_, fun address account exportedAccount found exportedFound => ?_⟩
  · have codeHeld : address ∈ (p.initGenesis alloc).codes ↔
        ((alloc.lookup address).bind (·.code)).isSome := by
      rw [← AList.lookup_isSome, ← Plugin.getCode, code]
    have slotHeld : ∀ key, (address, key) ∈ (p.initGenesis alloc).states ↔
        (alloc.slot address key).isSome := fun key => by
      rw [← AList.lookup_isSome, slot]
    simp only [exported, Plugin.mem_exportGenesis, codeHeld, slotHeld, GenesisAlloc.slot]
    cases found : alloc.lookup address with
    | none => simp
    | some account =>
        have nonempty : account.code.isSome ↔ account.code.getD [] ≠ [] := by
          cases held : account.code with
          | none => simp
          | some bytes => simpa [held] using codes address account found
        simp [nonempty]
  · obtain ⟨codeEq, nonceEq, -⟩ :=
      Plugin.carriesStore_exportGenesis _ getBalance address exportedAccount exportedFound
    refine ⟨by rw [codeEq, code, found]; rfl, fun key => ?_, ?_⟩
    · have exportedSlot := Plugin.slot_exportGenesis (p.initGenesis alloc) getBalance address key
      rwa [GenesisAlloc.slot, exportedFound, slot, GenesisAlloc.slot, found] at exportedSlot
    · rw [nonceEq, Plugin.getNonce_initGenesis, found]
      rfl

theorem init_export_genesis_contract :
    let p : Plugin := ⟨∅, ∅, fun _ => 0⟩
    let contract : Address := ⟨List.replicate 20 1, rfl⟩
    let key : Hash := ⟨List.replicate 32 1, rfl⟩
    let alloc : GenesisAlloc := (∅ : GenesisAlloc).insert contract
      { code := some [0x60, 0x00], storage := some ((∅ : AList fun _ : Hash => Hash).insert key key),
        nonce := 1 }
    let exported := (p.initGenesis alloc).exportGenesis fun _ => 0
    (p.codes = ∅ ∧ p.states = ∅ ∧
      (∀ address account, alloc.lookup address = some account → account.code ≠ some []) ∧
      ∀ address key value, alloc.slot address key = some value → value ≠ zeroHash) ∧
    (∀ address, address ∈ exported ↔ ∃ account, alloc.lookup address = some account ∧
        (account.code.getD [] ≠ [] ∨ ∃ key, (account.slot key).isSome)) ∧
      ∀ address account exportedAccount, alloc.lookup address = some account →
        exported.lookup address = some exportedAccount →
        exportedAccount.code.getD [] = account.code.getD [] ∧
          (∀ key, exportedAccount.slot key = account.slot key) ∧
          exportedAccount.nonce = account.nonce := by
  intro p contract key alloc exported
  have codes : ∀ address account, alloc.lookup address = some account →
      account.code ≠ some [] := by
    intro address account found
    by_cases same : address = contract
    · subst same
      rw [AList.lookup_insert, Option.some.injEq] at found
      simp [← found]
    · rw [AList.lookup_insert_ne same, AList.lookup_empty] at found
      cases found
  have values : ∀ address key' value, alloc.slot address key' = some value → value ≠ zeroHash := by
    intro address key' value found
    by_cases same : address = contract
    · subst same
      rw [GenesisAlloc.slot, AList.lookup_insert, Option.some_bind, GenesisAccount.slot,
        Option.some_bind] at found
      by_cases sameKey : key' = key
      · subst sameKey
        rw [AList.lookup_insert, Option.some.injEq] at found
        rw [← found]
        decide
      · rw [AList.lookup_insert_ne sameKey, AList.lookup_empty] at found
        cases found
    · rw [GenesisAlloc.slot, AList.lookup_insert_ne same, AList.lookup_empty] at found
      cases found
  exact ⟨⟨rfl, rfl, codes, values⟩,
    init_export_genesis_round_trip p alloc _ rfl rfl codes values⟩

/-- `ExportGenesis` of any store exports exactly the addresses with code or storage. Each exported
account carries its address's code and nonce and exactly the store's slots of it. It has a
storage map exactly when the store has a slot of it, and then the balance `GetBalance` reads; an
account with code only gets balance zero. The code pass thus keeps what the storage pass wrote. -/
theorem exportGenesis_spec (p : Plugin) (getBalance : Address → Int) :
    let exported := p.exportGenesis getBalance
    (∀ address, address ∈ exported ↔ address ∈ p.codes ∨ ∃ key, (address, key) ∈ p.states) ∧
      ∀ address account, exported.lookup address = some account →
        account.code = p.getCode address ∧ account.nonce = p.getNonce address ∧
        (∀ key, account.slot key = p.states.lookup (address, key)) ∧
        (account.storage.isSome ↔ ∃ key, (address, key) ∈ p.states) ∧
        account.balance = some (if account.storage.isSome then getBalance address else 0) := by
  refine ⟨Plugin.mem_exportGenesis p getBalance, fun address account found => ?_⟩
  obtain ⟨code, nonce, balance⟩ :=
    Plugin.carriesStore_exportGenesis p getBalance address account found
  have slot : ∀ key, account.slot key = p.states.lookup (address, key) := fun key => by
    have exportedSlot := Plugin.slot_exportGenesis p getBalance address key
    rwa [GenesisAlloc.slot, found] at exportedSlot
  refine ⟨code, nonce, slot, ⟨Plugin.storage_exportGenesis p getBalance found, ?_⟩, balance⟩
  rintro ⟨key, member⟩
  obtain ⟨value, held⟩ := Option.isSome_iff_exists.mp (AList.lookup_isSome.mpr member)
  rw [← slot, GenesisAccount.slot] at held
  cases storage : account.storage with
  | none => simp [storage] at held
  | some _ => rfl

/-- `InitGenesis` of any alloc into any store. An address of the alloc gets its account's code
when that is not nil, and its account's nonce. Each slot of an account's storage map gets its
value, or no slot for a zero value. The reserved address, when the alloc lacks it, gets nonce
zero. Every other code, slot and nonce is as before. -/
theorem initGenesis_spec (p : Plugin) (alloc : GenesisAlloc) :
    let initialized := p.initGenesis alloc
    (∀ address, initialized.getCode address =
        ((alloc.lookup address).bind (·.code)).or (p.getCode address)) ∧
      (∀ address key, initialized.states.lookup (address, key) =
        ((alloc.slot address key).map storedSlot).getD (p.states.lookup (address, key))) ∧
      ∀ address, initialized.getNonce address =
        ((alloc.lookup address).map (·.nonce)).getD
          (if address = reservedAddress then 0 else p.getNonce address) := by
  refine ⟨fun address => Plugin.getCode_initGenesis p address alloc, fun address key => ?_,
    fun address => ?_⟩
  · rw [Plugin.lookup_initGenesis, GenesisAlloc.slot]
    cases alloc.lookup address <;> rfl
  · rw [Plugin.getNonce_initGenesis, Plugin.getNonce_createAccount]

/-- A store exported and initialised into a store with no code and no storage comes back: every
address has the same code and the same slots, and every address with code or storage the same
nonce. The store's slots must be non-zero, as `SetState` keeps them. -/
theorem export_init_genesis_round_trip (p q : Plugin) (getBalance : Address → Int)
    (noCode : q.codes = ∅) (noStorage : q.states = ∅)
    (nonzero : ∀ slot value, p.states.lookup slot = some value → value ≠ zeroHash) :
    let restored := q.initGenesis (p.exportGenesis getBalance)
    (∀ address, restored.getCode address = p.getCode address) ∧
      (∀ address key, restored.states.lookup (address, key) = p.states.lookup (address, key)) ∧
      ∀ address, (address ∈ p.codes ∨ ∃ key, (address, key) ∈ p.states) →
        restored.getNonce address = p.getNonce address := by
  intro restored
  have slot := fun address key => Plugin.slot_exportGenesis p getBalance address key
  have carries := Plugin.carriesStore_exportGenesis p getBalance
  refine ⟨fun address => ?_, fun address key => ?_, fun address held => ?_⟩
  · rw [Plugin.getCode_initGenesis_of_empty q address _ noCode]
    cases found : (p.exportGenesis getBalance).lookup address with
    | some account => exact (carries address account found).1
    | none =>
        have absent := (Plugin.mem_exportGenesis p getBalance address).not.mp
          (AList.lookup_eq_none.mp found)
        exact (AList.lookup_eq_none.mpr fun member => absent (.inl member)).symm
  · rw [Plugin.lookup_initGenesis_of_nonzero q address _ noStorage
      (fun address key value held => nonzero _ value (slot address key ▸ held)), slot]
  · obtain ⟨account, found⟩ := Option.isSome_iff_exists.mp
      (AList.lookup_isSome.mpr ((Plugin.mem_exportGenesis p getBalance address).mpr held))
    rw [Plugin.getNonce_initGenesis, found]
    exact (carries address account found).2.1

theorem export_init_genesis_slot :
    let contract : Address := ⟨List.replicate 20 1, rfl⟩
    let key : Hash := ⟨List.replicate 32 1, rfl⟩
    let p : Plugin := ⟨∅, (∅ : AList fun _ : Address × Hash => Hash).insert (contract, key) key,
      fun _ => 1⟩
    let q : Plugin := ⟨∅, ∅, fun _ => 0⟩
    let restored := q.initGenesis (p.exportGenesis fun _ => 0)
    (q.codes = ∅ ∧ q.states = ∅ ∧
      ∀ slot value, p.states.lookup slot = some value → value ≠ zeroHash) ∧
    (∀ address, restored.getCode address = p.getCode address) ∧
      (∀ address key, restored.states.lookup (address, key) = p.states.lookup (address, key)) ∧
      ∀ address, (address ∈ p.codes ∨ ∃ key, (address, key) ∈ p.states) →
        restored.getNonce address = p.getNonce address := by
  intro contract key p q restored
  have values : ∀ slot value, p.states.lookup slot = some value → value ≠ zeroHash := by
    intro slot value found
    by_cases same : slot = (contract, key)
    · subst same
      rw [AList.lookup_insert, Option.some.injEq] at found
      rw [← found]
      decide
    · rw [AList.lookup_insert_ne same, AList.lookup_empty] at found
      cases found
  exact ⟨⟨rfl, rfl, values⟩, export_init_genesis_round_trip p q _ rfl rfl values⟩

end Molaris.State

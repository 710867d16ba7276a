import Mathlib.Data.List.Nodup

/-! Idealised signatures. A party holds some private keys; whatever verifies under any other
key was signed by that key's holder, and the party can only repeat it. -/

namespace Ideal

variable {Key Msg Sig : Type}

/-- What a party can draw signatures from: the keys it holds, and the messages that the holders
of the other keys have signed. -/
structure Party (Key Msg : Type) where
  holds : Key → Prop
  signed : Key → Msg → Prop

def Unforgeable (verify : Key → Msg → Sig → Bool) (p : Party Key Msg) : Prop :=
  ∀ k m s, verify k m s = true → p.holds k ∨ p.signed k m

theorem Unforgeable.signed_of_not_holds {verify : Key → Msg → Sig → Bool} {p : Party Key Msg}
    (h : Unforgeable verify p) {k : Key} {m : Msg} {s : Sig} (hk : ¬ p.holds k)
    (hv : verify k m s = true) : p.signed k m :=
  (h k m s hv).resolve_left hk

def tableVerify [DecidableEq Key] [DecidableEq Msg] (held : List Key) (log : List (Key × Msg))
    (k : Key) (m : Msg) (_ : Sig) : Bool :=
  decide (k ∈ held) || decide ((k, m) ∈ log)

def tableParty (held : List Key) (log : List (Key × Msg)) : Party Key Msg where
  holds k := k ∈ held
  signed k m := (k, m) ∈ log

theorem tableVerify_unforgeable [DecidableEq Key] [DecidableEq Msg] (held : List Key)
    (log : List (Key × Msg)) :
    Unforgeable (@tableVerify Key Msg Sig _ _ held log) (tableParty held log) := by
  intro k m s h
  simpa [tableVerify, tableParty] using h

def Genuine (verify : Key → Msg → Sig → Bool) (signed : Key → Msg → Prop) : Prop :=
  ∀ k m s, verify k m s = true → signed k m

def Binding (verify : Key → Msg → Sig → Bool) : Prop :=
  ∀ k m k' m' s, verify k m s = true → verify k' m' s = true → k = k' ∧ m = m'

section Ledger

variable [DecidableEq Key] [DecidableEq Msg] [DecidableEq Sig] (ledger : List (Key × Msg × Sig))

def ledgerVerify (k : Key) (m : Msg) (s : Sig) : Bool := decide ((k, m, s) ∈ ledger)

theorem ledgerVerify_eq_true {k : Key} {m : Msg} {s : Sig} :
    ledgerVerify ledger k m s = true ↔ (k, m, s) ∈ ledger := decide_eq_true_iff

theorem ledgerVerify_genuine : Genuine (ledgerVerify ledger) fun k m =>
  ∃ s, (k, m, s) ∈ ledger := by
  intro k m s h
  exact ⟨s, (ledgerVerify_eq_true ledger).mp h⟩

theorem ledgerVerify_binding (h : (ledger.map fun entry => entry.2.2).Nodup) :
    Binding (ledgerVerify ledger) := by
  intro k m k' m' s hk hk'
  rw [ledgerVerify_eq_true] at hk hk'
  have hsame := List.inj_on_of_nodup_map h hk hk' rfl
  cases hsame
  exact ⟨rfl, rfl⟩

end Ledger

end Ideal

import OpenDmcn.Relay.OperatorFields
import Mathlib.Data.Prod.Lex
import Mathlib.Data.Int.ConditionallyCompleteOrder
import Mathlib.Order.WithBot

/-! Anti-rollback of identity records: the standing of the record held for an address, its revision
and then the operator's date, only grows along a run, and what is filed for an address reads
back. -/

namespace Dmcn

open Go RecordStore

variable {rt : Runtime} {anchor : DarAnchor}

def standing (rec : IdentityRecord) : ℕ ×ₗ ℤ :=
  toLex (rec.revision.toNat, (operatorFieldIssuedAt rec).nanos)

/-- The standing of the record held for an address, below every other while none is held. -/
def heldStanding (rt : Runtime) (a : String) (r : Relay) : WithBot (ℕ ×ₗ ℤ) :=
  match r.records.getIdentity rt a with
  | none => ⊥
  | some rec => standing rec

def ReadsBack (rt : Runtime) (rs : RecordStore) : Prop :=
  ∀ a data, rs.getIdentityBytes a = some data →
    ∃ rec, IdentityRecord.fromProtoBytes rt data = some rec ∧ rec.address = a ∧ rec.verify rt = true

theorem notOlder_iff_standing_le {prev rec : IdentityRecord} :
    NotOlder prev rec ↔ standing prev ≤ standing rec := by
  unfold NotOlder standing
  rw [Prod.Lex.toLex_le_toLex, Time.before_eq_false_iff, UInt64.lt_iff_toNat_lt, ← UInt64.toNat_inj,
    eq_comm]

theorem heldStanding_push (a : String) (r : Relay) (p : Push) :
    heldStanding rt a r ≤ heldStanding rt a (r.push rt anchor p) := by
  unfold heldStanding
  rcases getIdentity_push rt anchor r p a with hkeep | ⟨rec, -, hadm, ha, hnew⟩
  · rw [hkeep]
  · rw [hnew]
    cases hheld : r.records.getIdentity rt a with
    | none => exact bot_le
    | some held =>
      -- whichever arm of the gate let the record in, the comparison came after it
      subst ha
      have hfresh := checkRollback_iff_notOlder.mp hadm.fresh held hheld
      exact WithBot.coe_le_coe.mpr (notOlder_iff_standing_le.mp hfresh)

theorem readsBack_push (r : Relay) (p : Push) (h : ReadsBack rt r.records) :
    ReadsBack rt (r.push rt anchor p).records := by
  have heffect := push_effect rt anchor r p
  generalize (r.push rt anchor p).records = rs at heffect
  intro a data hdata
  unfold getIdentityBytes at hdata
  cases heffect with
  | kept => exact h a data hdata
  | @identity rec hkind hadm =>
    by_cases ha : a = rec.address
    · subst ha
      unfold putIdentity at hdata
      rw [get_put_self] at hdata
      rw [← Option.some.inj hdata]
      exact ⟨rec, IdentityRecord.fromProtoBytes_marshal hadm.parsed, rfl, hadm.verified⟩
    · unfold putIdentity at hdata
      rw [get_put_of_id_ne _ _ ha] at hdata
      exact h a data hdata
  | dar hkind hadm => exact h a data ((get_put_of_prefix_ne _ _ (by decide)).symm.trans hdata)
  | removal hkind hadm => exact h a data ((get_put_of_prefix_ne _ _ (by decide)).symm.trans hdata)
  | other hidentity hdar hremoval =>
    exact h a data ((get_put_of_prefix_ne _ _ hidentity.symm).symm.trans hdata)

theorem readsBack_seed (bundles : List DomainAuthorityRecord) :
    ReadsBack rt (seedOwnRecords rt bundles).records := by
  intro a data hdata
  cases (get_seed rt bundles a (by decide)).symm.trans hdata

/-- Along every run of pushes from a freshly seeded node, the standing held for an address is at
each later state at least what it was, and what is held reads back and verifies. -/
theorem identity_never_rolls_back (rt : Runtime) (anchor : DarAnchor)
    (seeds : List DomainAuthorityRecord) (a : String) (earlier later : List Push) :
    heldStanding rt a (Machine.run (Relay.push rt anchor) (seedOwnRecords rt seeds) earlier) ≤
      heldStanding rt a
        (Machine.run (Relay.push rt anchor) (seedOwnRecords rt seeds) (earlier ++ later)) ∧
    ReadsBack rt
      (Machine.run (Relay.push rt anchor) (seedOwnRecords rt seeds)
        (earlier ++ later)).records := by
  constructor
  · rw [Machine.run_append]
    exact Machine.le_run (heldStanding_push a) _ later
  · have hreach : Machine.Reachable (Relay.push rt anchor) (seedOwnRecords rt seeds)
        (Machine.run (Relay.push rt anchor) (seedOwnRecords rt seeds) (earlier ++ later)) :=
          ⟨_, rfl⟩
    exact hreach.invariant (Q := fun r => ReadsBack rt r.records) (readsBack_seed seeds)
      readsBack_push

end Dmcn

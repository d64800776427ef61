import Mathlib
import PgAuthz.Store.Schema

/-!
# The audit log

The rows of `authz.tuples_audit`. A row carries the start of its transaction and a sequence number
that is drawn when it is written, so that the order of the log is the lexicographic order of the
two.

## Main definitions

* `AuditRow`: a row of `authz.tuples_audit`
* `Cursor`, `AuditRow.key`: positions in the log
* `inOrder log`: the log by `(performed_at, seq)`
-/

namespace PgAuthz

/-- What an audit row records: a change of a tuple, or the end of a store or of a type. -/
inductive AuditAction
  | insert
  | delete
  | storeRetired
  | typeRemoved
deriving DecidableEq, Repr

/-- A row of `authz.tuples_audit`: the columns of the tuple, and the event. -/
structure AuditRow extends Tuple where
  storeId : ℕ
  seq : ℤ
  action : AuditAction
  performedAt : ℤ
  performedBy : String
deriving DecidableEq, Repr

/-- A position in the log; the least instant is `-infinity`. -/
abbrev Cursor := WithBot ℤ ×ₗ ℤ

/-- The position of a row. -/
def AuditRow.key (r : AuditRow) : Cursor := toLex (↑r.performedAt, r.seq)

/-- The log in the order of `(performed_at, seq)`. -/
def inOrder (log : List AuditRow) : List AuditRow := log.insertionSort fun a b => a.key ≤ b.key

theorem mem_inOrder {log : List AuditRow} {r : AuditRow} : r ∈ inOrder log ↔ r ∈ log :=
  List.mem_insertionSort _

theorem pairwise_inOrder (log : List AuditRow) :
    (inOrder log).Pairwise fun a b => a.key ≤ b.key := by
  have htotal : Std.Total fun a b : AuditRow => a.key ≤ b.key := ⟨fun a b => le_total a.key b.key⟩
  have htrans : IsTrans AuditRow fun a b => a.key ≤ b.key := ⟨fun _ _ _ => le_trans⟩
  exact List.pairwise_insertionSort _ log

theorem AuditRow.key_lt_iff {a b : AuditRow} :
    a.key < b.key ↔ a.performedAt < b.performedAt ∨ a.performedAt = b.performedAt ∧ a.seq < b.seq := by
  simp [AuditRow.key, Prod.Lex.toLex_lt_toLex]

theorem AuditRow.performedAt_le_of_key_le {a b : AuditRow} (h : a.key ≤ b.key) :
    a.performedAt ≤ b.performedAt := by
  rcases Prod.Lex.toLex_le_toLex.mp h with h | h
  · exact (WithBot.coe_lt_coe.mp h).le
  · exact (WithBot.coe_inj.mp h.1).le

end PgAuthz

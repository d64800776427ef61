import PgAuthz.Console.AuditedCalls

/-!
# Who the audit trail names

The audit triggers record `authz.performed_by`, and the role of the connection while it is empty. No
handler passes the person on to the calls that write tuples of the console's own store, and neither
does the editor when it removes a type, nor a rollout when it removes stale ones; a share names its
actor, and the clean-up of redundant tuples itself. All other calls name the person.

## Main definitions

* `RoleCall.Quiet`, `StoreChange.Quiet`: calls that find the rows as they would leave them
* `Attributable`: a change whose calls all name the person, or write nothing where they do not

## Main results

* `attributed_iff`: the audit rows of a change name the person iff it is `Attributable`
-/

namespace PgAuthz.Console

open Attribution (Loud Missigns Mute Signed Signs exists_misnamed runAll runAll_cons signed_cons_iff
  signed_iff_quiet signed_of_signs signer)

/-! ## Calls that record nothing -/

/-- The tuple that a call writes is there for good, and the one that it deletes is not there. -/
def RoleCall.Quiet (w : World) : RoleCall → Prop
  | write t => t ∈ w.roles.tuples.rows ∧ t ∉ w.qualified
  | delete t => t ∉ w.roles.tuples.rows
  | _ => True

/-- The statement finds the tuple as it would leave it. -/
def StoreChange.Quiet (env : Engine) (st : ManagedStore) : StoreChange → Prop
  | tuple (.upsert row) => row ∈ st.tuples
  | tuple (.insert key) => permanent st key ∈ st.tuples
  | tuple (.delete key) => ∀ t ∈ st.tuples, ¬(t.key = key ∧ t.visible env.toChecks = true)
  | edit _ => True

/-- A change whose audit rows all name the person: the role of the connection happens to bear their
name, or every tuple of the console's own store is found as the change would leave it; no type is
removed; the actor of a share is the person, or the share changes nothing; and no tuple is cleaned up
as redundant. -/
def Attributable (cfg : Config) (env : Engine) (w : World) : ConsoleChange → Prop
  | .roles c => env.effectiveRole = c.person.tag ∨ ∀ call ∈ roleCalls cfg w c, call.Quiet w
  | .store p _ req => (env.effectiveRole = p.tag ∨ req.removed = []) ∧
      (req.performedBy p = p.tag ∨ ∀ c ∈ req.changes, c.Quiet env w.store)
  | .apply p _ version => env.effectiveRole = p.tag ∨ staleTypes w.store version = []
  | .cleanupRedundant _ _ objectType relation => findRedundantTuples env w.store objectType relation = []
  | _ => True

section Quiet

variable {env : Engine} {w w' : World} {entries : List Entry}

theorem RoleCall.entries_eq_nil {c : RoleCall} (hc : ∀ s, c ≠ .deleteStoreReceipt s) :
    c.entries w = [] ↔ c.Quiet w := by
  cases c with
  | write t =>
    simp only [RoleCall.entries, RoleCall.Quiet]
    constructor
    · intro h
      by_contra hq
      rw [if_neg hq] at h
      split at h <;> cases h
    · intro hq
      exact if_pos hq
  | delete t => simp [RoleCall.entries, RoleCall.Quiet]
  | deleteStoreReceipt s => exact absurd rfl (hc s)
  | _ => exact iff_of_true rfl trivial

/-- A call that records nothing leaves the tuples, and with them what is quiet. -/
theorem RoleCall.quiet_congr {c : RoleCall} (hc : ∀ s, c ≠ .deleteStoreReceipt s)
    (h : c.call.run w = .ok (w', [])) (d : RoleCall) : d.Quiet w' ↔ d.Quiet w := by
  obtain ⟨hroles, ⟨v, hv, hqual⟩, hnil⟩ := RoleCall.run_eq_ok h
  have hquiet := (RoleCall.entries_eq_nil hc).mp hnil.symm
  have htuples : ∀ t, t ∈ w'.roles.tuples.rows ↔ t ∈ w.roles.tuples.rows := by
    cases c with
    | write u =>
      obtain ⟨T, hT, hw⟩ := map_eq_ok.mp hroles
      intro t
      rw [← hw, writeTuple_eq_ok hT, RoleTable.mem_insert]
      exact or_iff_left_of_imp fun htu => htu ▸ hquiet.1
    | delete u =>
      obtain ⟨T, hT, hw⟩ := map_eq_ok.mp hroles
      intro t
      rw [← hw, deleteTuple_eq_ok hT, RoleTable.mem_erase]
      exact and_iff_left_of_imp fun ht htu => hquiet (htu ▸ ht)
    | ensureOwner role object =>
      obtain ⟨-, -, hw⟩ := map_eq_ok.mp hroles
      exact fun t => by rw [hw]
    | _ => exact fun t => Except.ok.inj hroles ▸ Iff.rfl
  have hqualified : ∀ t ∈ w.roles.tuples.rows, t ∈ w'.qualified ↔ t ∈ w.qualified := by
    intro t ht
    rw [hqual]
    cases c with
    | write u =>
      obtain rfl := Except.ok.inj hv
      rw [List.mem_filter, decide_eq_true_eq]
      exact and_iff_left_of_imp fun htq htu => hquiet.2 (htu ▸ htq)
    | delete u =>
      obtain rfl := Except.ok.inj hv
      rw [List.mem_filter, decide_eq_true_eq]
      exact and_iff_left_of_imp fun _ htu => hquiet (htu ▸ ht)
    | setTypeNamespace name ns =>
      obtain ⟨-, -, rfl⟩ := map_eq_ok.mp hv
      exact Iff.rfl
    | _ =>
      obtain rfl := Except.ok.inj hv
      exact Iff.rfl
  cases d with
  | write t =>
    simp only [RoleCall.Quiet, htuples t]
    exact and_congr_right fun ht => not_congr (hqualified t ht)
  | delete t => exact not_congr (htuples t)
  | _ => exact Iff.rfl

theorem TupleChange.entries_eq_nil {st : ManagedStore} {c : TupleChange} :
    c.entries env st = [] ↔ (StoreChange.tuple c).Quiet env st := by
  cases c with
  | upsert row => exact upserted_eq_nil
  | insert key => exact upserted_eq_nil
  | delete key =>
    simp only [TupleChange.entries, dropped_eq_nil, StoreChange.Quiet, Bool.not_eq_true',
      Bool.and_eq_false_iff, decide_eq_false_iff_not, not_and, Bool.not_eq_true]
    exact forall₂_congr fun t _ => or_iff_not_imp_left.trans (by rw [not_not])

/-- A statement that records nothing leaves the tuples, and with them what is quiet. -/
theorem TupleChange.quiet_congr {st st' : ManagedStore} {c : TupleChange}
    (h : c.apply env.toChecks st = .ok st') (hq : (StoreChange.tuple c).Quiet env st) (d : StoreChange) :
    d.Quiet env st' ↔ d.Quiet env st := by
  have htuples : ∀ t, t ∈ st'.tuples ↔ t ∈ st.tuples := by
    cases c with
    | upsert row =>
      simp only [TupleChange.apply, bind_eq_ok, guardOr_eq_ok, exists_const] at h
      obtain ⟨_, -, -, h⟩ := h
      obtain rfl := Except.ok.inj h
      exact fun t => Keyed.mem_upsert_of_mem hq
    | insert key =>
      simp only [TupleChange.apply, bind_eq_ok, guardOr_eq_ok, exists_const] at h
      obtain ⟨_, -, -, h⟩ := h
      obtain rfl := Except.ok.inj h
      exact fun t => Keyed.mem_upsert_of_mem hq
    | delete key =>
      simp only [TupleChange.apply, bind_eq_ok, guardOr_eq_ok, exists_const] at h
      obtain ⟨_, -, -, h⟩ := h
      obtain rfl := Except.ok.inj h
      intro t
      rw [Keyed.mem_filter]
      refine and_iff_left_of_imp fun ht => ?_
      have hne := hq t ht
      simpa [not_and, or_iff_not_imp_left] using hne
  cases d with
  | edit _ => exact Iff.rfl
  | tuple d =>
    cases d with
    | upsert row => exact htuples row
    | insert key =>
      show permanent st' key ∈ st'.tuples ↔ permanent st key ∈ st.tuples
      rw [permanent, permanent, Keyed.find?_congr htuples, htuples]
    | delete key => exact forall_congr' fun t => imp_congr_left (htuples t)

/-- The removal of a type always leaves a row. -/
theorem loud_removeType {name : String} {force : Bool} :
    Loud (ModelEdit.call env (.removeType name force)) := by
  intro w w' entries h
  rw [(ModelEdit.run_eq_ok h).2]
  exact List.append_ne_nil_of_right_ne_nil _ (List.cons_ne_nil _ _)

end Quiet

/-! ## Who is named -/

section Attributed

variable {cfg : Config} {env : Engine} {w w' : World} {log : List (Signed Entry)}

theorem tag_ne {p : Principal} {v : String} (hv : ':' ∉ v.toList) : v ≠ p.tag := by
  rintro rfl
  apply hv
  simp [Principal.tag, String.toList_append]

theorem signer_tag (role : String) (p : Principal) : signer role p.tag = p.tag :=
  if_neg (tag_ne (by decide)).symm

theorem signer_empty (role : String) : signer role "" = role := if_pos rfl

/-- The calls on the console's own store, under a role of another name. -/
theorem roleCalls_signed_iff {role setting name : String} {calls : List RoleCall}
    (hcalls : ∀ c ∈ calls, ∀ s, c ≠ .deleteStoreReceipt s) (hrole : role ≠ name)
    (hrun : runAll role setting w (calls.map (·.call)) = .ok (w', log)) :
    (∀ row ∈ log, row.signedBy = name) ↔ ∀ c ∈ calls, c.Quiet w := by
  refine signed_iff_quiet (Q := RoleCall.Quiet) hrun ?_ ?_ ?_
  · intro c hc
    cases c with
    | write t | delete t => exact .inl ⟨"", rfl, signer_empty role ▸ hrole⟩
    | deleteStoreReceipt s => exact absurd rfl (hcalls _ hc s)
    | _ =>
      refine .inr fun w w' entries h => ?_
      rw [(RoleCall.run_eq_ok h).2.2]
      rfl
  · intro c hc w w' entries h
    rw [(RoleCall.run_eq_ok h).2.2]
    exact RoleCall.entries_eq_nil (hcalls c hc)
  · intro c hc w w' h d _
    exact RoleCall.quiet_congr (hcalls c hc) h d

/-- Only the deletion of a store has a call that records rows of the store, and that call comes first. -/
theorem roleCalls_cases (cfg : Config) (w : World) (c : RoleChange) :
    (∀ d ∈ roleCalls cfg w c, ∀ s, d ≠ .deleteStoreReceipt s) ∨
      ∃ s ts, roleCalls cfg w c = .deleteStoreReceipt s :: List.map RoleCall.delete ts := by
  cases c with
  | deleteStore p s req => exact .inr ⟨s, _, rfl⟩
  | _ =>
    refine .inl fun d hd s' => ?_
    simp only [roleCalls] at hd
    grind

theorem roles_attributed_iff {c : RoleChange}
    (hrun : runAll env.effectiveRole c.person.tag w ((roleCalls cfg w c).map (·.call)) = .ok (w', log)) :
    (∀ row ∈ log, row.signedBy = c.person.tag) ↔ Attributable cfg env w (.roles c) := by
  by_cases hrole : env.effectiveRole = c.person.tag
  · refine iff_of_true (signed_of_signs hrun (signer_tag _ _) ?_) (.inl hrole)
    intro s hs v hv
    obtain ⟨d, -, rfl⟩ := List.mem_map.mp hs
    cases d with
    | write t | delete t =>
      obtain rfl := Option.some.inj hv
      rw [signer_empty, hrole]
    | _ => cases hv
  · rw [Attributable, or_iff_right hrole]
    rcases roleCalls_cases cfg w c with hcalls | ⟨s, ts, heq⟩
    · exact roleCalls_signed_iff hcalls hrole hrun
    · -- the rows of the store go under the person, and the tuples of the console after them
      rw [heq, List.map_cons] at hrun
      obtain ⟨w₁, entries, rest, hfirst, hrest, rfl⟩ := runAll_cons.mp hrun
      have hsame : w₁.roles.tuples = w.roles.tuples := by
        rw [← Except.ok.inj (RoleCall.run_eq_ok hfirst).1]
      rw [signed_cons_iff, heq, List.forall_mem_cons]
      refine and_congr (iff_of_true (.inr (signer_tag _ _)) trivial) ?_
      rw [roleCalls_signed_iff (by simp) hrole hrest]
      refine forall₂_congr fun d hd => ?_
      obtain ⟨t, -, rfl⟩ := List.mem_map.mp hd
      show t ∉ w₁.roles.tuples.rows ↔ t ∉ w.roles.tuples.rows
      rw [hsame]

/-- The requests on a store name the person, but for removed types and the actor of a share. -/
theorem change_signs {role performedBy : String} {p : Principal} {c : StoreChange}
    (hremoves : role = p.tag ∨ c.removes = none)
    (htuple : performedBy = p.tag ∨ ∃ e, c = .edit e) : Signs role p.tag (c.call env performedBy) := by
  intro v hv
  cases c with
  | tuple c =>
    obtain rfl := Option.some.inj hv
    rcases htuple with rfl | ⟨e, he⟩
    · exact signer_tag _ _
    · cases he
  | edit e =>
    cases e with
    | removeType name force =>
      obtain rfl := Option.some.inj hv
      rw [signer_empty]
      exact hremoves.resolve_right nofun
    | _ => cases hv

/-- Requests other than a share pass the person on; a share only has statements on tuples. -/
theorem performedBy_cases (p : Principal) (req : StoreRequest) :
    req.performedBy p = p.tag ∨ ∀ c ∈ req.changes, ∃ d, c = .tuple d := by
  cases req with
  | share objectType objectId actorType actorId grants revokes =>
    refine .inr fun c hc => ?_
    rcases List.mem_append.mp hc with hc | hc
    · obtain ⟨e, -, rfl⟩ := List.mem_map.mp hc
      exact ⟨_, rfl⟩
    · obtain ⟨e, -, rfl⟩ := List.mem_map.mp hc
      exact ⟨_, rfl⟩
  | _ => exact .inl rfl

theorem performedBy_ne_empty (p : Principal) (req : StoreRequest) : req.performedBy p ≠ "" := by
  cases req with
  | share objectType objectId actorType actorId grants revokes =>
    intro h
    have hcolon : ':' ∈ (actorType ++ ":" ++ actorId).toList := by simp [String.toList_append]
    rw [show actorType ++ ":" ++ actorId = "" from h] at hcolon
    exact absurd hcolon (by decide)
  | _ => exact (tag_ne (by decide)).symm

theorem store_attributed_iff {p : Principal} {s : String} {req : StoreRequest}
    (hrun : runAll env.effectiveRole p.tag w (req.changes.map (·.call env (req.performedBy p)))
      = .ok (w', log)) :
    (∀ row ∈ log, row.signedBy = p.tag) ↔ Attributable cfg env w (.store p s req) := by
  rw [Attributable]
  by_cases hremoved : env.effectiveRole = p.tag ∨ req.removed = []
  · rw [and_iff_right hremoved]
    have hremoves : ∀ c ∈ req.changes, env.effectiveRole = p.tag ∨ c.removes = none := by
      intro c hc
      refine hremoved.imp_right fun hnil => ?_
      exact List.filterMap_eq_nil_iff.mp hnil c hc
    by_cases hperson : req.performedBy p = p.tag
    · refine iff_of_true (signed_of_signs hrun (signer_tag _ _) ?_) (.inl hperson)
      intro call hcall
      obtain ⟨c, hc, rfl⟩ := List.mem_map.mp hcall
      exact change_signs (hremoves c hc) (.inl hperson)
    · rw [or_iff_right hperson]
      have htuples := (performedBy_cases p req).resolve_left hperson
      refine signed_iff_quiet (Q := fun w c => StoreChange.Quiet env w.store c) hrun ?_ ?_ ?_
      · intro c hc
        obtain ⟨d, rfl⟩ := htuples c hc
        refine .inl ⟨_, rfl, ?_⟩
        rw [signer, if_neg (performedBy_ne_empty p req)]
        exact hperson
      · intro c hc v v' entries h
        obtain ⟨d, rfl⟩ := htuples c hc
        rw [(TupleChange.run_eq_ok h).2]
        exact TupleChange.entries_eq_nil
      · intro c hc v v' h c' _
        obtain ⟨d, rfl⟩ := htuples c hc
        obtain ⟨happly, hnil⟩ := TupleChange.run_eq_ok h
        exact TupleChange.quiet_congr happly (TupleChange.entries_eq_nil.mp hnil.symm) c'
  · -- a type is removed, under the role of the connection
    refine iff_of_false ?_ fun h => hremoved h.1
    rw [not_or] at hremoved
    obtain ⟨name, hname⟩ := List.exists_mem_of_ne_nil _ hremoved.2
    obtain ⟨c, hc, hremoves⟩ := List.mem_filterMap.mp hname
    match c, hremoves with
    | .edit (.removeType X force), _ =>
      refine exists_misnamed hrun (List.mem_map_of_mem hc) ⟨"", rfl, ?_⟩ loud_removeType
      rw [signer_empty]
      exact hremoved.1

theorem apply_attributed_iff {p : Principal} {s : String} {version : ModelVersion}
    (hrun : runAll env.effectiveRole p.tag w (applyModel env w.store version) = .ok (w', log)) :
    (∀ row ∈ log, row.signedBy = p.tag) ↔ Attributable cfg env w (.apply p s version) := by
  rw [Attributable]
  by_cases hstale : env.effectiveRole = p.tag ∨ staleTypes w.store version = []
  · refine iff_of_true (signed_of_signs hrun (signer_tag _ _) ?_) hstale
    intro call hcall v hv
    rcases List.mem_append.mp hcall with hcall | hcall
    · obtain ⟨name, hname, rfl⟩ := List.mem_map.mp hcall
      obtain rfl := Option.some.inj hv
      rw [signer_empty]
      exact hstale.resolve_right (List.ne_nil_of_mem hname)
    · obtain rfl := List.mem_singleton.mp hcall
      cases hv
  · refine iff_of_false ?_ hstale
    rw [not_or] at hstale
    obtain ⟨name, hname⟩ := List.exists_mem_of_ne_nil _ hstale.2
    refine exists_misnamed hrun (List.mem_append_left _ (List.mem_map_of_mem hname)) ⟨"", rfl, ?_⟩
      loud_removeType
    rw [signer_empty]
    exact hstale.1

theorem cleanupRedundant_attributed_iff {p : Principal} {s : String} {objectType relation : Option String}
    (hrun : runAll env.effectiveRole p.tag w (cleanupRedundantTuples env w.store objectType relation)
      = .ok (w', log)) :
    (∀ row ∈ log, row.signedBy = p.tag) ↔
      Attributable cfg env w (.cleanupRedundant p s objectType relation) := by
  have hname : signer env.effectiveRole "cleanup_redundant_tuples" ≠ p.tag := by
    rw [signer, if_neg (by decide)]
    exact tag_ne (by decide)
  have hquiet := signed_iff_quiet
    (Q := fun w key => StoreChange.Quiet env w.store (.tuple (.delete key))) hrun
    (fun key _ => .inl ⟨_, rfl, hname⟩)
    (fun key _ v v' entries h => by
      rw [(TupleChange.run_eq_ok h).2]
      exact TupleChange.entries_eq_nil)
    (fun key _ v v' h key' _ => by
      obtain ⟨happly, hnil⟩ := TupleChange.run_eq_ok h
      exact TupleChange.quiet_congr happly (TupleChange.entries_eq_nil.mp hnil.symm) _)
  rw [hquiet, Attributable, List.eq_nil_iff_forall_not_mem]
  -- a redundant tuple is one that is shown
  refine forall_congr' fun key => ⟨fun h hkey => ?_, fun h hkey => absurd hkey h⟩
  obtain ⟨t, ht, rfl⟩ := List.mem_map.mp hkey
  rw [List.mem_filter] at ht
  simp only [Bool.and_eq_true] at ht
  exact h hkey t ht.1 ⟨rfl, ht.2.1.1.1.1.1.1⟩

/-- **The audit rows of a change name the person iff it is attributable.** -/
theorem attributed_iff {c : ConsoleChange} (h : transact cfg env w c = .ok (w', log)) :
    (∀ row ∈ log, row.signedBy = c.person.tag) ↔ Attributable cfg env w c := by
  obtain ⟨calls, hcalls, hrun⟩ := bind_eq_ok.mp h
  -- one call that keeps the setting, or passes the person on
  have hone : ∀ call : Call, calls = [call] → (call.sets = none ∨ call.sets = some c.person.tag) →
      ∀ row ∈ log, row.signedBy = c.person.tag := by
    rintro call rfl hsets
    refine signed_of_signs hrun (signer_tag _ _) ?_
    intro s hs v hv
    obtain rfl := List.mem_singleton.mp hs
    rcases hsets with hnone | hsome
    · rw [hnone] at hv
      cases hv
    · rw [hsome] at hv
      obtain rfl := Option.some.inj hv
      exact signer_tag _ _
  cases c with
  | roles c =>
    obtain ⟨_, -, hcalls⟩ := bind_eq_ok.mp hcalls
    obtain rfl := Except.ok.inj hcalls
    exact roles_attributed_iff hrun
  | store p s req =>
    obtain ⟨_, -, hcalls⟩ := bind_eq_ok.mp hcalls
    obtain rfl := Except.ok.inj hcalls
    exact store_attributed_iff hrun
  | apply p s version =>
    obtain ⟨_, -, hcalls⟩ := bind_eq_ok.mp hcalls
    obtain rfl := Except.ok.inj hcalls
    exact apply_attributed_iff hrun
  | cleanupRedundant p s objectType relation =>
    obtain ⟨_, -, hcalls⟩ := bind_eq_ok.mp hcalls
    obtain rfl := Except.ok.inj hcalls
    exact cleanupRedundant_attributed_iff hrun
  | modelDsl p s dsl =>
    obtain ⟨_, -, hcalls⟩ := bind_eq_ok.mp hcalls
    exact iff_of_true (hone _ (Except.ok.inj hcalls).symm (.inl rfl)) trivial
  | retireStore p s confirm =>
    obtain ⟨_, -, hcalls⟩ := bind_eq_ok.mp hcalls
    exact iff_of_true (hone _ (Except.ok.inj hcalls).symm (.inl rfl)) trivial
  | cleanupExpired p s grace =>
    obtain ⟨_, -, hcalls⟩ := bind_eq_ok.mp hcalls
    exact iff_of_true (hone _ (Except.ok.inj hcalls).symm (.inr rfl)) trivial
  | offboard p s userType userId =>
    simp only [ConsoleChange.calls, bind_eq_ok] at hcalls
    obtain ⟨_, -, _, -, hcalls⟩ := hcalls
    exact iff_of_true (hone _ (Except.ok.inj hcalls).symm (.inr rfl)) trivial
  | subjectErase p s userType userId purgeAudit =>
    simp only [ConsoleChange.calls, bind_eq_ok] at hcalls
    obtain ⟨_, -, _, -, hcalls⟩ := hcalls
    exact iff_of_true (hone _ (Except.ok.inj hcalls).symm (.inr rfl)) trivial
  | issuerDelete p issuer =>
    simp only [ConsoleChange.calls, bind_eq_ok] at hcalls
    obtain ⟨_, -, _, -, hcalls⟩ := hcalls
    exact iff_of_true (hone _ (Except.ok.inj hcalls).symm (.inr rfl)) trivial
  | issuerSet p b =>
    simp only [ConsoleChange.calls, bind_eq_ok] at hcalls
    obtain ⟨_, -, _, -, _, -, hcalls⟩ := hcalls
    exact iff_of_true (hone _ (Except.ok.inj hcalls).symm (.inr rfl)) trivial
  | unaudited p op =>
    simp only [ConsoleChange.calls, bind_eq_ok] at hcalls
    obtain ⟨_, -, hcalls⟩ := hcalls
    obtain rfl := Except.ok.inj hcalls
    obtain ⟨-, rfl⟩ := Prod.mk.inj (Except.ok.inj hrun)
    exact iff_of_true (fun row hrow => absurd hrow List.not_mem_nil) trivial

end Attributed

/-- The owner of a store. -/
def alice : Principal := ⟨.user, "alice", [], none, "shop", false⟩

/-- A console in which she owns the store, and nobody else has a role. -/
def ownedShop : World where
  roles := ⟨⟨[⟨alice.user, .owner, ⟨.store, "shop"⟩⟩], by decide⟩, [("shop", "")], [], []⟩
  qualified := []
  expired := []
  store := shop
  bindings := ⟨[], by decide⟩

/-- A rule that the owner adds is recorded as hers. -/
theorem attributed_add_rule :
    ∃ w' log, transact shopConfig consoleEngine ownedShop
        (.store alice "shop" (.edit (.addRule "contact" "viewer" .direct 0 .or false false))) = .ok (w', log) ∧
      ∀ row ∈ log, row.signedBy = "user:alice" := by
  have hok : ∃ r, transact shopConfig consoleEngine ownedShop
      (.store alice "shop" (.edit (.addRule "contact" "viewer" .direct 0 .or false false))) = .ok r :=
    ⟨_, rfl⟩
  obtain ⟨⟨w', log⟩, hok⟩ := hok
  exact ⟨w', log, hok, (attributed_iff hok).mpr ⟨.inr rfl, .inl rfl⟩⟩

/-- The owner gives a role to another user, and the audit row names the role of the connection. -/
theorem access_add_names_connection :
    "console" ≠ alice.tag ∧ ∃ w', transact shopConfig consoleEngine ownedShop
        (.roles (.accessAdd alice "shop" ⟨⟨.user, "bob", none⟩, .viewer⟩)) =
      .ok (w', [⟨⟨.insert, .role ⟨⟨.user, "bob", none⟩, .viewer, ⟨.store, "shop"⟩⟩⟩, "console"⟩]) :=
  ⟨by decide, _, rfl⟩

end PgAuthz.Console

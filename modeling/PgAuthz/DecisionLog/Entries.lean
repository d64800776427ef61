import Mathlib.Data.List.Sort
import PgAuthz.DecisionLog.Conservation
import PgAuthz.Text.JsonText
import PgAuthz.Text.Url

/-!
# Lines of the decision log

A handler makes an entry of each decision from the strings of its request, and the logger writes it as a
line of JSON. The sink takes the line apart again into the columns of a row, and keeps the line itself in
one of them. Both ways leave the strings as they are, so that a `NUL` in the request reaches a column of
`text`, and the escape of a `NUL` the one of `jsonb`; neither can hold it.

## Main definitions

* `Entry`, `Entry.document`: an entry, and the document that `json.Marshal` writes
* `decisionEntry`, `logDecision`: the entry of a decision
* `Row`, `parseRow`: the columns
* `Row.storable`: what the columns can hold

## Main results

* `storable_parseRow`: a row can be stored exactly if no string of its entry has a `NUL`
* `completeLines_written`: the lines of what the logger writes are those of its entries
-/

namespace PgAuthz

namespace DecisionLog

open JsonText (Document NumberText)
open Url (utf8)

/-! ## Entries -/

/-- A `time.Time`, with what its text consists of. -/
structure Stamp where
  reading : Time
  chars : List Char
  plain : '\x00' ∉ chars
deriving DecidableEq

/-- `time.Time.IsZero`: the first instant of year 1. -/
def Stamp.isZero (t : Stamp) : Bool := t.reading = -62135596800000000

/-- A typed identifier. -/
structure Ref where
  type : String
  id : String
deriving DecidableEq

/-- The outcome of a gate clause. -/
structure Gate where
  gate : String
  clause : String
  passed : Bool
  reason : String
deriving DecidableEq

/-- A veto of a policy hook. -/
structure HookDenial where
  tier : String
  store : String
  hook : String
  code : String
  message : String
deriving DecidableEq

/-- The provenance of a store's model. -/
structure ModelRef where
  name : String
  version : Option ℤ
  checksum : String
deriving DecidableEq

/-- The provenance of a policy decision; the bundles are in the order of their names. -/
structure PolicyRef where
  opaVersion : String
  bundles : List (String × String)
deriving DecidableEq

/-- One decision. -/
structure Entry where
  time : Stamp
  requestID : String := ""
  traceID : String := ""
  spanID : String := ""
  listener : String
  endpoint : String
  via : String := ""
  store : String := ""
  storeID : ℤ := 0
  subject : Ref := ⟨"", ""⟩
  action : String := ""
  resource : Ref := ⟨"", ""⟩
  decision : Option Bool := none
  state : String := ""
  reason : String := ""
  missingContext : List String := []
  conditions : List String := []
  gates : List Gate := []
  hooks : List String := []
  hookDenials : List HookDenial := []
  contextKeys : List String := []
  contextualTuples : ℤ := 0
  actor : String := ""
  client : String := ""
  onBehalfOf : String := ""
  issuer : String := ""
  pgauthzdVersion : String := ""
  model : Option ModelRef := none
  policy : Option PolicyRef := none
  resultCount : Option ℤ := none
  latencyMS : NumberText
  error : String := ""

/-- The decimal text of an integer. -/
def intText (n : ℤ) : NumberText where
  chars := (if n < 0 then ['-'] else []) ++ Nat.toDigits 10 n.natAbs
  ne_nil := by simp [Nat.toDigits_ne_nil]
  valid := by
    intro c hc
    rcases List.mem_append.mp hc with hc | hc
    · split at hc
      · rw [List.mem_singleton.mp hc]
        decide
      · cases hc
    · have hdigit : c.isDigit = true := Nat.isDigit_of_mem_toDigits (by decide) (by decide) hc
      simp [JsonText.numberChar, hdigit]

/-- The entries of a document, as a struct gives them. -/
abbrev Fields := List (List Char × Document)

/-- A field that is always written. -/
def field (key : String) (v : Document) : Fields := [(key.toList, v)]

/-- A field with `omitempty`. -/
def fieldUnless (empty : Prop) [Decidable empty] (key : String) (v : Document) : Fields :=
  if empty then [] else field key v

/-- A string as a document. -/
def strDoc (s : String) : Document := .str s.toList

/-- A string with `omitempty`. -/
def text (key s : String) : Fields := fieldUnless (s = "") key (strDoc s)

/-- A list of strings with `omitempty`. -/
def texts (key : String) (l : List String) : Fields := fieldUnless (l = []) key (.arr (l.map strDoc))

/-- A pointer with `omitempty`. -/
def pointer {α : Type} (key : String) (doc : α → Document) : Option α → Fields
  | none => []
  | some a => field key (doc a)

/-- An integer as a document. -/
def intDoc (n : ℤ) : Document := .num (intText n)

/-- A `Ref` as a document. -/
def Ref.document (r : Ref) : Document := .obj (field "type" (strDoc r.type) ++ text "id" r.id)

/-- A `Gate` as a document. -/
def Gate.document (g : Gate) : Document :=
  .obj (field "gate" (strDoc g.gate) ++ text "clause" g.clause ++ field "passed" (.bool g.passed) ++
    text "reason" g.reason)

/-- A `HookDenial` as a document. -/
def HookDenial.document (d : HookDenial) : Document :=
  .obj (text "tier" d.tier ++ text "store" d.store ++ text "hook" d.hook ++ text "code" d.code ++
    text "message" d.message)

/-- A `ModelRef` as a document. -/
def ModelRef.document (m : ModelRef) : Document :=
  .obj (text "name" m.name ++ pointer "version" intDoc m.version ++ text "checksum" m.checksum)

/-- A `PolicyRef` as a document. -/
def PolicyRef.document (p : PolicyRef) : Document :=
  .obj (text "opa_version" p.opaVersion ++
    fieldUnless (p.bundles = []) "bundles" (.obj (p.bundles.map fun b => (b.1.toList, strDoc b.2))))

/-- An entry as a document. -/
def Entry.document (e : Entry) : Document :=
  .obj (field "ts" (.str e.time.chars) ++ text "request_id" e.requestID ++ text "trace_id" e.traceID ++
    text "span_id" e.spanID ++ field "listener" (strDoc e.listener) ++
    field "endpoint" (strDoc e.endpoint) ++ text "via" e.via ++ field "store" (strDoc e.store) ++
    fieldUnless (e.storeID = 0) "store_id" (intDoc e.storeID) ++
    field "subject" e.subject.document ++ field "action" (strDoc e.action) ++
    field "resource" e.resource.document ++ pointer "decision" .bool e.decision ++
    text "state" e.state ++ text "reason" e.reason ++ texts "missing_context" e.missingContext ++
    texts "conditions" e.conditions ++
    fieldUnless (e.gates = []) "gates" (.arr (e.gates.map Gate.document)) ++ texts "hooks" e.hooks ++
    fieldUnless (e.hookDenials = []) "hook_denials" (.arr (e.hookDenials.map HookDenial.document)) ++
    texts "context_keys" e.contextKeys ++
    fieldUnless (e.contextualTuples = 0) "contextual_tuples" (intDoc e.contextualTuples) ++
    text "actor" e.actor ++ text "client" e.client ++ text "on_behalf_of" e.onBehalfOf ++
    text "issuer" e.issuer ++ text "pgauthzd_version" e.pgauthzdVersion ++
    pointer "model" ModelRef.document e.model ++ pointer "policy" PolicyRef.document e.policy ++
    pointer "result_count" intDoc e.resultCount ++ field "latency_ms" (.num e.latencyMS) ++
    text "error" e.error)

/-- The line of an entry. -/
def Entry.line (e : Entry) : List UInt8 := utf8 (String.ofList (JsonText.marshal e.document))

/-! ## Decisions -/

/-- What a handler and the request of a caller have besides the question: the identities in the context
of the request. -/
structure Exchange where
  listener : String
  version : String
  requestID : String
  issuer : String
  client : String
  subjectType : String
  subjectID : String
  onBehalfOfType : String
  onBehalfOfID : String

/-- The question of a request, with the keys of its context. -/
structure EvalRequest where
  store : String
  subjectType : String
  subjectID : String
  action : String
  objectType : String
  objectID : String
  contextKeys : List String

/-- `decisionEntry` -/
def decisionEntry (time : Stamp) (latency : NumberText) (x : Exchange) (endpoint : String)
    (req : EvalRequest) (via : String) : Entry where
  time := time
  latencyMS := latency
  listener := x.listener
  endpoint := endpoint
  via := via
  store := req.store
  subject := ⟨req.subjectType, req.subjectID⟩
  action := req.action
  resource := ⟨req.objectType, req.objectID⟩
  requestID := x.requestID
  issuer := x.issuer
  client := x.client
  contextKeys := req.contextKeys.insertionSort (· ≤ ·)
  actor := if x.subjectType ≠ "" ∧ x.subjectID ≠ "" then x.subjectType ++ ":" ++ x.subjectID else ""
  onBehalfOf :=
    if x.onBehalfOfType ≠ "" ∧ x.onBehalfOfID ≠ "" then x.onBehalfOfType ++ ":" ++ x.onBehalfOfID else ""

/-- What `FromDetail` finds in a detailed decision. -/
structure Detail where
  state : Option String
  reason : Option String
  missingContext : List String
  conditions : List String
  hooksLoaded : List String
  hookDenials : List HookDenial

/-- `FromDetail` -/
def Entry.fromDetail (e : Entry) : Option Detail → Entry
  | none => e
  | some detail =>
    { e with
      state := detail.state.getD e.state
      reason := detail.reason.getD e.reason
      missingContext := detail.missingContext
      conditions := detail.conditions
      hooks := detail.hooksLoaded
      hookDenials := detail.hookDenials }

/-- The outcome of a decision: its error, or the decision with its detail. -/
abbrev Outcome := Except String (Bool × Option Detail)

/-- What `logDecision` adds besides the outcome. -/
structure Provenance where
  storeID : ℤ
  traceID : String
  spanID : String
  version : String
  model : Option ModelRef
  policy : Option PolicyRef

/-- `logDecision` -/
def logDecision (e : Entry) (outcome : Outcome) (p : Provenance) : Entry :=
  let e := { e with storeID := p.storeID }
  let e := match outcome with
    | .error err => { e with error := err }
    | .ok (decision, detail) =>
      let e := { e with decision := some decision }.fromDetail detail
      if e.state = "" then { e with state := if decision then "allow" else "deny" } else e
  { e with
    traceID := p.traceID
    spanID := p.spanID
    pgauthzdVersion := p.version
    model := p.model
    policy := p.policy }

/-- A decision with all that is logged about it. -/
structure Decision where
  time : Stamp
  latency : NumberText
  exchange : Exchange
  endpoint : String
  request : EvalRequest
  via : String
  outcome : Outcome
  provenance : Provenance

/-- The entry that a handler logs. -/
def Decision.entry (d : Decision) : Entry :=
  logDecision (decisionEntry d.time d.latency d.exchange d.endpoint d.request d.via) d.outcome d.provenance

/-! ## Columns -/

/-- A value of a column. -/
inductive Value
  | null
  | timestamp (t : Stamp)
  | text (s : String)
  | boolean (b : Bool)
  | integer (n : ℤ)
  | real (x : NumberText)
  | jsonb (doc : Document)

/-- One line as table columns. -/
structure Row where
  ts : Stamp
  vals : List Value

/-- `nullable` -/
def nullable (s : String) : Value := if s = "" then .null else .text s

/-- `nullableID` -/
def nullableID (id : ℤ) : Value := if id = 0 then .null else .integer id

/-- `parseRow`, on what `json.Unmarshal` reads from the line of an entry. -/
def parseRow (e : Entry) : Option Row :=
  if e.time.isZero ∨ e.store = "" ∧ e.endpoint = "" then none
  else
    some ⟨e.time, [.timestamp e.time, nullable e.requestID, nullable e.traceID, nullable e.spanID,
      .text e.listener, .text e.endpoint, nullable e.via, .text e.store, nullableID e.storeID,
      nullable e.subject.type, nullable e.subject.id, nullable e.action,
      nullable e.resource.type, nullable e.resource.id,
      (e.decision.map Value.boolean).getD .null, nullable e.state, nullable e.reason, nullable e.actor,
      nullable e.client, nullable e.issuer, .real e.latencyMS, nullable e.error, .jsonb e.document]⟩

/-- A string has no `NUL`. -/
def plain (s : List Char) : Bool := !s.contains '\x00'

mutual

/-- What a column of `jsonb` accepts: no string with a `NUL`. -/
def jsonbAccepts : Document → Bool
  | .str s => plain s
  | .arr items => jsonbAcceptsItems items
  | .obj fields => jsonbAcceptsFields fields
  | .null | .bool _ | .num _ => true

def jsonbAcceptsItems : List Document → Bool
  | [] => true
  | v :: vs => jsonbAccepts v && jsonbAcceptsItems vs

def jsonbAcceptsFields : Fields → Bool
  | [] => true
  | (k, v) :: fs => plain k && jsonbAccepts v && jsonbAcceptsFields fs

end

/-- A value can be stored in its column. -/
def Value.storable : Value → Bool
  | .text s => plain s.toList
  | .jsonb doc => jsonbAccepts doc
  | .null | .timestamp _ | .boolean _ | .integer _ | .real _ => true

/-- A row can be stored. -/
def Row.storable (r : Row) : Bool := r.vals.all Value.storable

/-! ## Rows that can be stored -/

/-- The strings of a `Ref`. -/
def Ref.strings (r : Ref) : List String := [r.type, r.id]

/-- The strings of a `Gate`. -/
def Gate.strings (g : Gate) : List String := [g.gate, g.clause, g.reason]

/-- The strings of a `HookDenial`. -/
def HookDenial.strings (d : HookDenial) : List String := [d.tier, d.store, d.hook, d.code, d.message]

/-- The strings of a `ModelRef`. -/
def ModelRef.strings (m : ModelRef) : List String := [m.name, m.checksum]

/-- The strings of a `PolicyRef`. -/
def PolicyRef.strings (p : PolicyRef) : List String :=
  p.opaVersion :: p.bundles.flatMap fun b => [b.1, b.2]

/-- The strings of an entry. -/
def Entry.strings (e : Entry) : List String :=
  [e.requestID, e.traceID, e.spanID, e.listener, e.endpoint, e.via, e.store] ++ e.subject.strings ++
    [e.action] ++ e.resource.strings ++ [e.state, e.reason] ++ e.missingContext ++ e.conditions ++
    e.gates.flatMap Gate.strings ++ e.hooks ++ e.hookDenials.flatMap HookDenial.strings ++ e.contextKeys ++
    [e.actor, e.client, e.onBehalfOf, e.issuer, e.pgauthzdVersion] ++
    e.model.toList.flatMap ModelRef.strings ++ e.policy.toList.flatMap PolicyRef.strings ++ [e.error]

/-- No string of the entry has a `NUL`. -/
def Entry.Plain (e : Entry) : Prop := ∀ s ∈ e.strings, plain s.toList = true

@[simp] theorem plain_append (s t : List Char) : plain (s ++ t) = (plain s && plain t) := by
  simp [plain]

theorem jsonbAcceptsItems_eq (l : List Document) : jsonbAcceptsItems l = l.all jsonbAccepts := by
  induction l with
  | nil => rfl
  | cons v vs ih => rw [jsonbAcceptsItems, ih, List.all_cons]

@[simp] theorem jsonbAccepts_arr (l : List Document) : jsonbAccepts (.arr l) = l.all jsonbAccepts := by
  rw [jsonbAccepts, jsonbAcceptsItems_eq]

@[simp] theorem jsonbAccepts_strDoc (s : String) : jsonbAccepts (strDoc s) = plain s.toList := by
  rw [strDoc, jsonbAccepts]

@[simp] theorem jsonbAccepts_intDoc (n : ℤ) : jsonbAccepts (intDoc n) = true := by
  rw [intDoc, jsonbAccepts]

theorem jsonbAcceptsFields_append (fs gs : Fields) :
    jsonbAcceptsFields (fs ++ gs) = (jsonbAcceptsFields fs && jsonbAcceptsFields gs) := by
  induction fs with
  | nil => rfl
  | cons f fs ih => simp [jsonbAcceptsFields, ih, Bool.and_assoc]

/-- The keys of an entry and of its parts. -/
def keys : List String :=
  ["ts", "request_id", "trace_id", "span_id", "listener", "endpoint", "via", "store", "store_id", "subject",
    "action", "resource", "decision", "state", "reason", "missing_context", "conditions", "gates", "hooks",
    "hook_denials", "context_keys", "contextual_tuples", "actor", "client", "on_behalf_of", "issuer",
    "pgauthzd_version", "model", "policy", "result_count", "latency_ms", "error", "type", "id", "gate",
    "clause", "passed", "tier", "hook", "code", "message", "name", "version", "checksum", "opa_version",
    "bundles"]

theorem plain_of_mem_keys {key : String} (h : key ∈ keys) : plain key.toList = true := by
  have hall : (keys.all fun key => plain key.toList) = true := by decide +kernel
  exact List.all_eq_true.mp hall key h

theorem accepts_field {key : String} (h : key ∈ keys) (v : Document) :
    jsonbAcceptsFields (field key v) = jsonbAccepts v := by
  rw [field, jsonbAcceptsFields, jsonbAcceptsFields, plain_of_mem_keys h, Bool.true_and, Bool.and_true]

theorem accepts_fieldUnless {key : String} (h : key ∈ keys) {empty : Prop} [Decidable empty]
    {v : Document} (hempty : empty → jsonbAccepts v = true) :
    jsonbAcceptsFields (fieldUnless empty key v) = jsonbAccepts v := by
  unfold fieldUnless
  split
  · rename_i hv
    rw [hempty hv, jsonbAcceptsFields]
  · exact accepts_field h v

theorem accepts_text {key : String} (h : key ∈ keys) (s : String) :
    jsonbAcceptsFields (text key s) = plain s.toList := by
  rw [text, accepts_fieldUnless h, jsonbAccepts_strDoc]
  rintro rfl
  rfl

theorem accepts_texts {key : String} (h : key ∈ keys) (l : List String) :
    jsonbAcceptsFields (texts key l) = l.all fun s => plain s.toList := by
  rw [texts, accepts_fieldUnless h, jsonbAccepts_arr, List.all_map]
  · exact List.all_congr rfl fun s => jsonbAccepts_strDoc s
  · rintro rfl
    rfl

theorem accepts_list {key : String} (h : key ∈ keys) {α : Type} (l : List α) (doc : α → Document) :
    jsonbAcceptsFields (fieldUnless (l = []) key (.arr (l.map doc))) =
      l.all fun a => jsonbAccepts (doc a) := by
  rw [accepts_fieldUnless h, jsonbAccepts_arr, List.all_map]
  · rfl
  · rintro rfl
    rfl

theorem accepts_pointer {key : String} (h : key ∈ keys) {α : Type} (doc : α → Document) (o : Option α) :
    jsonbAcceptsFields (pointer key doc o) = o.all fun a => jsonbAccepts (doc a) := by
  cases o with
  | none => rfl
  | some a => exact accepts_field h (doc a)

/-- An integer of which 0 is left out. -/
theorem accepts_int {key : String} (h : key ∈ keys) (n : ℤ) :
    jsonbAcceptsFields (fieldUnless (n = 0) key (intDoc n)) = true := by
  rw [accepts_fieldUnless h, jsonbAccepts_intDoc]
  exact fun _ => jsonbAccepts_intDoc n

/-! ### The parts of an entry -/

theorem accepts_ref (r : Ref) : jsonbAccepts r.document = r.strings.all fun s => plain s.toList := by
  rw [Ref.document, jsonbAccepts, jsonbAcceptsFields_append, accepts_field (by decide), accepts_text (by decide),
    jsonbAccepts_strDoc]
  simp [Ref.strings]

theorem accepts_gate (g : Gate) : jsonbAccepts g.document = g.strings.all fun s => plain s.toList := by
  rw [Gate.document, jsonbAccepts, jsonbAcceptsFields_append, jsonbAcceptsFields_append,
    jsonbAcceptsFields_append, accepts_field (by decide), accepts_text (by decide),
    accepts_field (by decide), accepts_text (by decide), jsonbAccepts_strDoc]
  simp [Gate.strings, jsonbAccepts, Bool.and_assoc]

theorem accepts_hookDenial (d : HookDenial) :
    jsonbAccepts d.document = d.strings.all fun s => plain s.toList := by
  simp only [HookDenial.document, jsonbAccepts, jsonbAcceptsFields_append]
  rw [accepts_text (by decide), accepts_text (by decide), accepts_text (by decide),
    accepts_text (by decide), accepts_text (by decide)]
  simp [HookDenial.strings, Bool.and_assoc]

theorem accepts_model (m : ModelRef) : jsonbAccepts m.document = m.strings.all fun s => plain s.toList := by
  simp only [ModelRef.document, jsonbAccepts, jsonbAcceptsFields_append]
  rw [accepts_text (by decide), accepts_pointer (by decide), accepts_text (by decide)]
  simp [ModelRef.strings]

theorem accepts_policy (p : PolicyRef) :
    jsonbAccepts p.document = p.strings.all fun s => plain s.toList := by
  have hbundles : ∀ bs : List (String × String),
      jsonbAcceptsFields (bs.map fun b => (b.1.toList, strDoc b.2)) =
        (bs.flatMap fun b => [b.1, b.2]).all fun s => plain s.toList := by
    intro bs
    induction bs with
    | nil => rfl
    | cons b bs ih => simp [jsonbAcceptsFields, ih, Bool.and_assoc]
  rw [PolicyRef.document, jsonbAccepts, jsonbAcceptsFields_append, accepts_text (by decide),
    accepts_fieldUnless (by decide), jsonbAccepts, hbundles, PolicyRef.strings, List.all_cons]
  intro hnil
  rw [hnil]
  rfl

/-- **The line can be stored exactly if no string of the entry has a `NUL`.** -/
theorem accepts_document (e : Entry) : jsonbAccepts e.document = true ↔ e.Plain := by
  have htime : plain e.time.chars = true := by simpa [plain] using e.time.plain
  have hpointer : ∀ {α : Type} (o : Option α) (strings : α → List String),
      (o.all fun a => (strings a).all fun s => plain s.toList) =
        (o.toList.flatMap strings).all fun s => plain s.toList := by
    intro α o strings
    cases o <;> simp
  have hdoc : jsonbAccepts e.document = e.strings.all fun s => plain s.toList := by
    simp (disch := decide) only [Entry.document, jsonbAccepts, jsonbAcceptsFields_append, accepts_field,
      accepts_text, accepts_texts, accepts_list, accepts_pointer, accepts_int]
    simp only [jsonbAccepts_strDoc, accepts_ref, accepts_gate, accepts_hookDenial,
      accepts_model, accepts_policy, jsonbAccepts_intDoc, htime, hpointer, Entry.strings, List.all_append,
      List.all_cons, List.all_nil, List.all_flatMap, Bool.and_assoc, Bool.true_and, Bool.and_true]
    simp
  rw [hdoc, List.all_eq_true]
  exact Iff.rfl

theorem plain_nullable (s : String) : (nullable s).storable = plain s.toList := by
  unfold nullable
  split
  · rename_i h
    rw [h]
    rfl
  · rfl

/-- **A row can be stored exactly if no string of its entry has a `NUL`.** -/
theorem storable_parseRow {e : Entry} {r : Row} (h : parseRow e = some r) :
    r.storable = true ↔ e.Plain := by
  unfold parseRow at h
  split at h
  · cases h
  · obtain rfl := Option.some.inj h
    constructor
    · intro hrow
      have hline : Value.storable (.jsonb e.document) = true :=
        List.all_eq_true.mp hrow _ (by simp)
      exact (accepts_document e).mp hline
    · intro hplain
      -- every other column holds a string of the entry, or none
      have hs : ∀ s ∈ e.strings, plain s.toList = true := hplain
      have hdecision : ((e.decision.map Value.boolean).getD .null).storable = true := by
        cases e.decision <;> rfl
      have hid : (nullableID e.storeID).storable = true := by
        unfold nullableID
        split <;> rfl
      have hdoc : Value.storable (.jsonb e.document) = true := (accepts_document e).mpr hplain
      have htext : ∀ s, Value.storable (.text s) = plain s.toList := fun _ => rfl
      have htime : Value.storable (.timestamp e.time) = true := rfl
      have hreal : Value.storable (.real e.latencyMS) = true := rfl
      simp only [Entry.strings, Ref.strings, List.forall_mem_append, List.forall_mem_cons] at hs
      simp [Row.storable, plain_nullable, htext, htime, hreal, hs, hdecision, hid, hdoc]

/-! ## Bytes -/

theorem utf8_ofList (l : List Char) : utf8 (String.ofList l) = l.flatMap String.utf8EncodeChar := by
  simp [utf8, List.utf8Encode]

/-- A line feed in the bytes is one in the text. -/
theorem eq_newline_of_mem_utf8 {c : Char} (h : newline ∈ String.utf8EncodeChar c) : c = '\n' := by
  have hbyte : ∀ n, newline = UInt8.ofNat n → n % 256 = 10 := by
    intro n hn
    have hnat : n % 256 = newline.toNat := by simpa using (congrArg UInt8.toNat hn).symm
    exact hnat
  have hcode : c.val.toNat = 10 := by
    unfold String.utf8EncodeChar at h
    dsimp only at h
    split at h
    · have hc := hbyte _ (List.mem_singleton.mp h)
      omega
    -- all bytes of a longer encoding are 128 or more
    split at h
    · rcases List.mem_pair.mp h with h | h
      all_goals
        have hc := hbyte _ h
        omega
    split at h
    · simp only [List.mem_cons, List.not_mem_nil, or_false] at h
      rcases h with h | h | h
      all_goals
        have hc := hbyte _ h
        omega
    · simp only [List.mem_cons, List.not_mem_nil, or_false] at h
      rcases h with h | h | h | h
      all_goals
        have hc := hbyte _ h
        omega
  have hchar := Char.ofNat_toNat c
  rw [Char.toNat, hcode] at hchar
  exact hchar.symm

theorem newline_not_mem_line (e : Entry) : newline ∉ e.line := by
  intro h
  rw [Entry.line, utf8_ofList, List.mem_flatMap] at h
  obtain ⟨c, hc, hmem⟩ := h
  rw [eq_newline_of_mem_utf8 hmem] at hc
  exact JsonText.newline_not_mem_marshal _ hc

/-- A text in braces has no white space at its ends. -/
theorem trimSpace_braces (b : List UInt8) : trimSpace (123 :: (b ++ [125])) = 123 :: (b ++ [125]) := by
  have hstart : ∀ fuel r, trimStart whiteSpace fuel (123 :: r) = 123 :: r := by
    intro fuel r
    cases fuel <;> rfl
  have hend : ∀ fuel r, trimStart (whiteSpace.map List.reverse) fuel (125 :: r) = 125 :: r := by
    intro fuel r
    cases fuel <;> rfl
  have hreverse : (123 :: (b ++ [125])).reverse = 125 :: (b.reverse ++ [123]) := by simp
  rw [trimSpace, hstart, hreverse, hend]
  simp

theorem exists_line_eq (e : Entry) : ∃ b, e.line = 123 :: (b ++ [125]) := by
  obtain ⟨l, hl⟩ := JsonText.exists_marshal_obj _
  refine ⟨l.flatMap String.utf8EncodeChar, ?_⟩
  rw [Entry.line, Entry.document, hl, utf8_ofList, List.flatMap_cons, List.flatMap_append]
  rfl

/-- Lines are equal only for equal documents. -/
theorem document_of_line {e e' : Entry} (h : e.line = e'.line) : e.document = e'.document :=
  JsonText.marshal_injective (String.ofList_injective (Url.utf8_injective h))

theorem line_ne_nil (e : Entry) : e.line ≠ [] := by
  obtain ⟨b, hb⟩ := exists_line_eq e
  rw [hb]
  exact List.cons_ne_nil _ _

theorem trimSpace_line (e : Entry) : trimSpace e.line = e.line := by
  obtain ⟨b, hb⟩ := exists_line_eq e
  rw [hb, trimSpace_braces]

/-- What the logger writes for entries. -/
def written (entries : List Entry) : List UInt8 := entries.flatMap fun e => e.line ++ [newline]

/-- **The lines of what the logger writes are those of its entries.** -/
theorem completeLines_written (entries : List Entry) :
    completeLines (written entries) = entries.map Entry.line := by
  induction entries with
  | nil => rfl
  | cons e entries ih =>
    have hended : Ended (e.line ++ [newline]) := .inr ⟨_, rfl⟩
    have hone : completeLines (e.line ++ [newline]) = [e.line] := by
      rw [completeLines, linesFrom_of_not_mem (newline_not_mem_line e), List.reverse_nil,
        List.nil_append, trimSpace_line, if_neg (line_ne_nil e)]
    rw [written, List.flatMap_cons, completeLines_append hended, hone, List.map_cons]
    exact congrArg _ ih

/-- The line that is written for an entry comes back from the buffer. -/
theorem nextLine_written (e : Entry) : nextLine (written [e]) = some (e.line, []) := by
  have hwritten : written [e] = e.line ++ [newline] := List.append_nil _
  have htake : (e.line ++ [newline]).takeWhile (· ≠ newline) = e.line := by
    rw [List.takeWhile_append_of_pos]
    · simp
    · intro c hc
      simpa using ne_of_mem_of_not_mem hc (newline_not_mem_line e)
  have hdrop : (e.line ++ [newline]).dropWhile (· ≠ newline) = [newline] := by
    rw [List.dropWhile_append_of_pos]
    · simp
    · intro c hc
      simpa using ne_of_mem_of_not_mem hc (newline_not_mem_line e)
  rw [hwritten, nextLine, if_pos (List.mem_append_right _ List.mem_cons_self), htake, hdrop, trimSpace_line]
  rfl

end DecisionLog

end PgAuthz

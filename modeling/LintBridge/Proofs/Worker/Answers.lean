import LintBridge.Proofs.Json.Reading
import LintBridge.Proofs.Json.Record
import LintBridge.Worker.Exchange

/-! What a worker may answer to an analysis.  `IsAnswer` says which texts are answers and which
findings they hold, in the terms of the grammar of JSON; `readReply_taken` says that just these
are accepted, with all their findings in order, and what becomes of every other reply. -/

namespace LintBridge.Worker

open LintBridge.Json LintBridge.Text

/-! ### Findings -/

/-- A JSON value gives a finding: as an object with the three parts of it among its members, or as
an array of them. -/
inductive GivesFinding (d : Diagnostic) : Value → Prop
  | object {members : List (Json.Text × Value)} (line : GivesOnce members "line" (.nat d.line))
      (rule : GivesOnce members "rule" (.text d.rule))
      (text : GivesOnce members "text" (.text d.message)) : GivesFinding d (.object members)
  | array : GivesFinding d (.array [.nat d.line, .text d.rule, .text d.message])

/-- The lines that a finding can be on. -/
def IsLine (line : Nat) : Prop := line < Nat.pow 2 32

/-- A JSON value is a finding: it gives one, on a line, and its members are named by texts. -/
structure IsFinding (d : Diagnostic) (v : Value) : Prop where
  given : GivesFinding d v
  line : IsLine d.line
  named : ∀ members, v = .object members → HasTextNames members

theorem finding?_eq_fields {v : Value} {d : Diagnostic} :
    finding? v = some d ↔ ∃ line rule text, fields? findingFields v = some [line, rule, text] ∧
      line.word? = some d.line ∧ rule.text? = some d.rule ∧ text.text? = some d.message := by
  unfold finding?
  simp only [Option.bind_eq_bind, Option.bind_eq_some_iff]
  constructor
  · rintro ⟨fields, given, parts⟩
    split at parts
    next line rule text =>
      simp only [Option.bind_eq_some_iff, Option.some.injEq] at parts
      obtain ⟨n, onLine, r, ofRule, t, withText, rfl⟩ := parts
      exact ⟨line, rule, text, given, onLine, ofRule, withText⟩
    next => cases parts
  · rintro ⟨line, rule, text, given, onLine, ofRule, withText⟩
    exact ⟨_, given, by simp only [onLine, ofRule, withText, Option.bind_some]⟩

/-- The findings that are read are those that the grammar of findings has. -/
theorem finding?_eq_some {v : Value} {d : Diagnostic} : finding? v = some d ↔ IsFinding d v := by
  have required : ∀ field ∈ findingFields, field.default = none := by simp [findingFields]
  simp only [finding?_eq_fields, Value.word?_eq_some, Value.text?_eq_some]
  constructor
  · rintro ⟨_, _, _, given, ⟨rfl, small⟩, rfl, rfl⟩
    cases v with
    | object members =>
      obtain ⟨named, fields⟩ := fieldsOfMembers?_eq_some.mp given
      simp only [findingFields, List.forall₂_cons, givesField_required] at fields
      obtain ⟨line, rule, text, -⟩ := fields
      exact ⟨.object line rule text, small, fun _ same => Value.object.inj same ▸ named⟩
    | array items =>
      obtain ⟨-, rfl⟩ := (fieldsOfItems?_eq_some required).mp given
      exact ⟨.array, small, nofun⟩
    | _ => cases given
  · rintro ⟨given, small, named⟩
    refine ⟨_, _, _, ?_, ⟨rfl, small⟩, rfl, rfl⟩
    cases given with
    | object line rule text =>
      refine fieldsOfMembers?_eq_some.mpr ⟨named _ rfl, ?_⟩
      simp only [findingFields, List.forall₂_cons, givesField_required]
      exact ⟨line, rule, text, .nil⟩
    | array => exact (fieldsOfItems?_eq_some required).mpr ⟨rfl, rfl⟩

/-! ### Answers -/

/-- A text is an answer with findings: it is a JSON array of just these, in their order. -/
def IsAnswer (text : String) (findings : List Diagnostic) : Prop :=
  ∃ items, IsDocument text (.array items) ∧ List.Forall₂ IsFinding findings items

theorem findings?_eq_some {v : Value} {findings : List Diagnostic} :
    findings? v = some findings ↔ ∃ items, v = .array items ∧
      List.Forall₂ IsFinding findings items := by
  cases v with
  | array items =>
    simp only [findings?, mapM_eq_some, finding?_eq_some, Value.array.injEq]
    constructor
    · exact fun each => ⟨items, rfl, each.flip⟩
    · rintro ⟨_, rfl, each⟩
      exact each.flip
  | _ => simp [findings?]

theorem isAnswer_iff {text : String} {findings : List Diagnostic} :
    (Json.parse? text).bind findings? = some findings ↔ IsAnswer text findings := by
  simp only [Option.bind_eq_some_iff, parse?_eq_some, findings?_eq_some, IsAnswer]
  constructor
  · rintro ⟨_, document, items, rfl, each⟩
    exact ⟨items, document, each⟩
  · rintro ⟨items, document, each⟩
    exact ⟨_, document, items, rfl, each⟩

/-- What is kept of a text: all of it if it has at most 2000 characters, else the first 2000 and how
many more there were. -/
def IsExcerpt (text payload : String) : Prop :=
  (text.length ≤ 2000 → payload = text) ∧
    (2000 < text.length → payload.toList = text.toList.take 2000 ++
      ("... (" ++ toString (text.length - 2000) ++ " more characters)").toList)

theorem isExcerpt_excerpt (text : String) : IsExcerpt text (excerpt text payloadLimit) := by
  unfold IsExcerpt excerpt payloadLimit
  simp only [String.length_toList]
  constructor
  · intro short
    rw [if_pos short]
  · intro long
    rw [if_neg (Nat.not_le.mpr long)]
    simp [toString]

/-- One item that is no finding spoils an answer. -/
theorem not_isAnswer_of_mem {text : String} {items : List Value} {v : Value}
    (document : IsDocument text (.array items)) (member : v ∈ items)
    (stray : ∀ d, ¬ IsFinding d v) (findings : List Diagnostic) : ¬ IsAnswer text findings := by
  rintro ⟨items', document', each⟩
  obtain rfl : items' = items := Value.array.inj (document'.unique document)
  obtain ⟨before, after, rfl⟩ := List.append_of_mem member
  obtain ⟨d, _, found, -, -⟩ :=
    List.forall₂_cons_right_iff.mp (List.forall₂_drop_append _ _ _ each)
  exact stray d found

/-! ### Replies -/

/-- What a reply to an analysis is taken for.  A refusal and a text that is no answer keep the path
of the file and the beginning of the text, and are told apart from a reply that did not come in
full. -/
structure Taken (request : Request) (reply : Option Http.Reply) (result : Except Error Outcome) :
    Prop where
  refused : ∀ status text, reply = some ⟨status, some text⟩ → status ≠ 200 →
    ∃ payload, IsExcerpt text payload ∧
      result = .error (.unexpectedStatus status request.file payload)
  accepted : ∀ text findings, reply = some ⟨200, some text⟩ → IsAnswer text findings →
    result = .ok (outcomeOf findings)
  rejected : ∀ text, reply = some ⟨200, some text⟩ → (∀ findings, ¬ IsAnswer text findings) →
    ∃ payload, IsExcerpt text payload ∧
      result = .error (.malformed request.file payload notFindings)
  spoiled : ∀ text items, reply = some ⟨200, some text⟩ → IsDocument text (.array items) →
    (∃ v ∈ items, ∀ d, ¬ IsFinding d v) → ∃ e, result = .error e
  answered : ∀ outcome, result = .ok outcome →
    ∃ text findings, reply = some ⟨200, some text⟩ ∧ IsAnswer text findings
  bad : ∀ e, result = .error e →
    (e.isBadAnswer = true ↔ ∃ status text, reply = some ⟨status, some text⟩)

section Replies

variable (request : Request)

theorem readAnswer_of_isAnswer {text : String} {findings : List Diagnostic}
    (h : IsAnswer text findings) : readAnswer request 200 text = .ok (outcomeOf findings) := by
  simp only [readAnswer, isAnswer_iff.mpr h, ne_eq, not_true_eq_false, if_false]

theorem readAnswer_of_not {text : String} (h : ∀ findings, ¬ IsAnswer text findings) :
    readAnswer request 200 text =
      .error (.malformed request.file (excerpt text payloadLimit) notFindings) := by
  have none : (Json.parse? text).bind findings? = none :=
    Option.eq_none_iff_forall_ne_some.mpr fun findings read => h findings (isAnswer_iff.mp read)
  simp only [readAnswer, none, ne_eq, not_true_eq_false, if_false]

theorem readAnswer_of_status {status : Nat} {text : String} (h : status ≠ 200) :
    readAnswer request status text =
      .error (.unexpectedStatus status request.file (excerpt text payloadLimit)) :=
  if_pos h

theorem readAnswer_eq_ok {status : Nat} {text : String} {outcome : Outcome}
    (h : readAnswer request status text = .ok outcome) :
    status = 200 ∧ ∃ findings, IsAnswer text findings := by
  by_cases ok : status = 200
  · subst ok
    refine ⟨rfl, Classical.byContradiction fun none => ?_⟩
    rw [readAnswer_of_not request (not_exists.mp none)] at h
    cases h
  · rw [readAnswer_of_status request ok] at h
    cases h

theorem isBadAnswer_readAnswer {status : Nat} {text : String} {e : Error}
    (h : readAnswer request status text = .error e) : e.isBadAnswer = true := by
  unfold readAnswer at h
  split at h
  · cases h
    rfl
  · split at h
    · cases h
    · cases h
      rfl

/-- A reply is taken for the findings in it just if it is an answer, and no failure but those that
are told of an answer are bad answers. -/
theorem readReply_taken : (∀ reply, Taken request reply (readReply request reply)) ∧
    ∀ e : Error, e.isBadAnswer = true ↔
      (∃ status file payload, e = .unexpectedStatus status file payload) ∨
        ∃ file payload reason, e = .malformed file payload reason := by
  refine ⟨fun reply => ?_, fun e => by cases e <;> simp [Error.isBadAnswer]⟩
  constructor
  case refused =>
    rintro status text rfl refusal
    exact ⟨_, isExcerpt_excerpt text, readAnswer_of_status request refusal⟩
  case accepted =>
    rintro text findings rfl answer
    exact readAnswer_of_isAnswer request answer
  case rejected =>
    rintro text rfl none
    exact ⟨_, isExcerpt_excerpt text, readAnswer_of_not request none⟩
  case spoiled =>
    rintro text items rfl document ⟨v, member, stray⟩
    exact ⟨_, readAnswer_of_not request (not_isAnswer_of_mem document member stray)⟩
  case answered =>
    intro outcome given
    match reply with
    | some ⟨status, some text⟩ =>
      obtain ⟨rfl, findings, answer⟩ := readAnswer_eq_ok request given
      exact ⟨text, findings, rfl, answer⟩
    | some ⟨_, none⟩ | none => cases given
  case bad =>
    intro e given
    match reply with
    | some ⟨status, some text⟩ =>
      exact iff_of_true (isBadAnswer_readAnswer request given) ⟨status, text, rfl⟩
    | some ⟨_, none⟩ | none =>
      cases given
      simp [Error.isBadAnswer]

end Replies

/-- A finding with a member that counts for nothing, but whose name is no text. -/
def strayMember : String :=
  "[\x7b\"\\ud800\":0,\"line\":1,\"rule\":\"r\",\"text\":\"t\"\x7d]"

theorem parse?_strayMember : parse? strayMember = some (.array [.object [(none, .nat 0),
    (some "line", .nat 1), (some "rule", .text "r"), (some "text", .text "t")]]) := by
  unfold parse? strayMember
  rw [← String.length_toList]
  simp only [String.reduceToList]
  rfl

/-- What has no text for its name is not passed over, though it would not count. -/
theorem strayMember_malformed :
    (∃ items, IsDocument strayMember (.array items) ∧
      List.Forall₂ (fun d v => GivesFinding d v ∧ IsLine d.line) [⟨1, "r", "t"⟩] items) ∧
    readReply ⟨.ofString "/a/b.css", none, .ofString "/w/stylelintconfig.json"⟩
        (some ⟨200, some strayMember⟩) =
      .error (.malformed (.ofString "/a/b.css") strayMember notFindings) := by
  have document := parse?_eq_some.mp parse?_strayMember
  refine ⟨⟨_, document, .cons ⟨.object ?line ?rule ?text, by simp [IsLine]⟩ .nil⟩, ?_⟩
  case line => exact ⟨[_], [_, _], rfl, by simp [Lacks]⟩
  case rule => exact ⟨[_, _], [_], rfl, by simp [Lacks]⟩
  case text => exact ⟨[_, _, _], [], rfl, by simp [Lacks]⟩
  have stray := not_isAnswer_of_mem document List.mem_cons_self fun d finding => by
    simpa using finding.named _ rfl (none, .nat 0) List.mem_cons_self
  have count : strayMember.length = 45 := by simp [← String.length_toList, strayMember]
  have whole : excerpt strayMember payloadLimit = strayMember :=
    (isExcerpt_excerpt strayMember).1 (by omega)
  rw [readReply, readAnswer_of_not _ stray, whole]

end LintBridge.Worker

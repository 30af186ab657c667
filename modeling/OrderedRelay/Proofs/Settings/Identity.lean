import OrderedRelay.Settings.Load
import OrderedRelay.Proofs.Binary64.Plain
import OrderedRelay.Proofs.Table

/-!
# Identities from the environment

The domain and the instance id of a relay are texts, but a variable that sets one is first read as a
truth value or a number, and what is read is written out again. Most texts come through as they are;
a number comes through only if it is already written the way numbers are written out. A file that has
the same text as a text is taken literally.
-/

namespace OrderedRelay

/-- One of the two texts that tell a relay from all others. -/
inductive IdentityPart where
  | domain
  | instanceId
deriving DecidableEq, Repr

namespace IdentityPart

def field : IdentityPart → String
  | domain => "domain"
  | instanceId => "instance_id"

def variableName : IdentityPart → String
  | domain => "BROKERLINK_RELAY__DOMAIN"
  | instanceId => "BROKERLINK_RELAY__INSTANCE_ID"

/-- The path of its setting. -/
def key (part : IdentityPart) : String := "relay." ++ part.field

/-- The settings with this text and otherwise as they are. -/
def put (part : IdentityPart) (text : String) (s : Settings) : Settings :=
  match part with
  | domain => { s with relay := { s.relay with domain := text } }
  | instanceId => { s with relay := { s.relay with instanceId := text } }

/-- What a source gives that has a value for it and nothing else. -/
def alone (part : IdentityPart) (w : SettingValue) : Table SettingValue :=
  [("relay", .table [(part.field, w)])]

/-- The text that a source has for it, if it has nothing else. -/
def soleText? (part : IdentityPart) : Table SettingValue → Option String
  | [(group, .table [(name, .text s)])] => if group = "relay" ∧ name = part.field then some s else none
  | _ => none

theorem key?_variableName (part : IdentityPart) :
    Environment.key? part.variableName = some part.key := by
  cases part <;> decide +kernel

theorem pathOf_key (part : IdentityPart) :
    SettingStep.pathOf part.key = [.key "relay", .key part.field] := by
  cases part <;> decide +kernel

end IdentityPart

namespace Environment

/-- What is written out for a text that a variable sets. -/
def writtenOut (s : String) : String :=
  if Text.lower s = "true" then "true"
  else if Text.lower s = "false" then "false"
  else match Signed.parse? s, Binary64.parse? s with
    | some i, _ => Signed.render i
    | none, some x => x.plain
    | none, none => s

/-- A word for truth in lower case, an integer without a plus sign or a needless zero, another number as
it is written out, or a text that is none of these. -/
structure Literal (s : String) : Prop where
  truth : Text.lower s ∈ ["true", "false"] → s ∈ ["true", "false"]
  integer : ∀ i, Signed.parse? s = some i → Signed.Canonical s.toList
  real : ∀ x, Signed.parse? s = none → Binary64.parse? s = some x → s = x.plain

/-- A text that is no word for truth or a number and has a character that no numeral has. -/
structure Ordinary (s : String) : Prop where
  truth : Text.lower s ∉ ["true", "false"]
  word : Binary64.unsignedWord s ∉ Binary64.words
  char : ∃ c ∈ s.toList, Binary64.isNumeralChar c = false

/-- The one setting among the variables. -/
def OnlySets (environment : Table String) (name s : String) : Prop :=
  ∃ before after, environment = before ++ (name, s) :: after ∧
    ∀ entry ∈ before ++ after, key? entry.1 = none

variable {environment : Table String} {name s key : String} {x : Binary64}

theorem toText?_value (hkey : key ≠ listKey) (s : String) :
    (value key s).toText? = some (writtenOut s) := by
  unfold value writtenOut
  grind [SettingValue.toText?]

theorem filterMap_of_none (h : ∀ entry ∈ environment, key? entry.1 = none) :
    (environment.filterMap fun (name, s) => (key? name).map fun key => (key, value key s)) = [] := by
  refine List.filterMap_eq_nil_iff.mpr fun entry hentry => ?_
  simp only [h entry hentry, Option.map_none]

theorem settings_of_none (h : ∀ entry ∈ environment, key? entry.1 = none) : settings environment = [] := by
  rw [settings, filterMap_of_none h]
  rfl

theorem settings_of_onlySets (h : OnlySets environment name s) (hkey : key? name = some key) :
    settings environment = [(key, value key s)] := by
  obtain ⟨before, after, rfl, hothers⟩ := h
  obtain ⟨hbefore, hafter⟩ := List.forall_mem_append.mp hothers
  rw [settings, List.filterMap_append, List.filterMap_cons, filterMap_of_none hbefore,
    filterMap_of_none hafter]
  simp only [hkey]
  rfl

theorem get?_of_none (h : ∀ entry ∈ environment, key? entry.1 = none) (hkey : key? name = some key) :
    environment.get? name = none := by
  refine Option.eq_none_iff_forall_ne_some.mpr fun s hs => ?_
  have hnone := h _ (Table.mem_of_get? hs)
  rw [hkey] at hnone
  cases hnone

/-! ### What comes through as it is -/

/-- No word for truth starts like a numeral. -/
theorem lowerChar_of_isNumeralChar {c : Char} (h : Binary64.isNumeralChar c = true) :
    Text.lowerChar c ≠ 't' ∧ Text.lowerChar c ≠ 'f' := by
  have hdigits : ∀ d < 10,
      Text.lowerChar (Nat.digitChar d) ≠ 't' ∧ Text.lowerChar (Nat.digitChar d) ≠ 'f' := by decide
  simp only [Binary64.isNumeralChar, Bool.or_eq_true, decide_eq_true_eq, List.mem_cons,
    List.not_mem_nil, or_false] at h
  rcases h with hdigit | rfl | rfl | rfl | rfl | rfl
  · obtain ⟨hlt, hchar⟩ := Text.digit_of_isDigit hdigit
    rw [← hchar]
    exact hdigits _ hlt
  all_goals decide

theorem first_of_truth (h : Text.lower s ∈ ["true", "false"]) :
    ∃ first rest, s.toList = first :: rest ∧ Binary64.isNumeralChar first ≠ true ∧
      (rest.length = 3 ∨ rest.length = 4) := by
  have hlower : s.toList.map Text.lowerChar = ['t', 'r', 'u', 'e'] ∨
      s.toList.map Text.lowerChar = ['f', 'a', 'l', 's', 'e'] := by
    rw [← Text.toList_lower]
    exact (List.mem_pair.mp h).imp (fun h => by rw [h]; simp) (fun h => by rw [h]; simp)
  generalize s.toList = cs at hlower
  rcases hlower with heq | heq
  all_goals
    obtain ⟨first, rest, rfl, hhead, htail⟩ := List.map_eq_cons_iff.mp heq
    have hlength := congrArg List.length htail
    simp only [List.length_map, List.length_cons, List.length_nil] at hlength
    refine ⟨first, rest, rfl, fun hnumeral => ?_, by omega⟩
    obtain ⟨ht, hf⟩ := lowerChar_of_isNumeralChar hnumeral
    first
      | exact ht hhead
      | exact hf hhead

theorem unsignedWord_of_truth (h : Text.lower s ∈ ["true", "false"]) :
    Binary64.unsignedWord s ∉ Binary64.words := by
  obtain ⟨first, rest, hs, hfirst, hlength⟩ := first_of_truth h
  have hsplit : Binary64.splitSign s.toList = (false, first :: rest) := by
    rw [hs, Binary64.splitSign]
    all_goals
      intro ds heq
      obtain ⟨rfl, -⟩ := List.cons.inj heq
      exact hfirst (by decide)
  have hlengths : ∀ word ∈ Binary64.words, word.toList.length ≠ 4 ∧ word.toList.length ≠ 5 := by
    decide +kernel
  intro hmem
  have hne := hlengths _ hmem
  simp only [Binary64.unsignedWord, hsplit, String.toList_ofList, List.length_map,
    List.length_cons] at hne
  omega

/-- A word for truth is not read as a number. -/
theorem parse?_of_truth (h : Text.lower s ∈ ["true", "false"]) : Binary64.parse? s = none := by
  obtain ⟨first, rest, hs, hfirst, -⟩ := first_of_truth h
  refine Option.eq_none_iff_forall_ne_some.mpr fun x hx => hfirst ?_
  exact Binary64.isNumeralChar_of_parse? hx (unsignedWord_of_truth h) (hs ▸ List.mem_cons_self ..)

theorem signed_none_of_parse? (h : Binary64.parse? s = none) : Signed.parse? s = none := by
  refine Option.eq_none_iff_forall_ne_some.mpr fun i hi => ?_
  have hnumber := Binary64.isSome_parse?_of_signed hi
  rw [h] at hnumber
  cases hnumber

theorem literal_of_parse? (htruth : Text.lower s ∉ ["true", "false"]) (h : Binary64.parse? s = none) :
    Literal s :=
  ⟨fun h => absurd h htruth, by simp [signed_none_of_parse? h], by simp [h]⟩

theorem literal_iff (s : String) : writtenOut s = s ↔ Literal s := by
  by_cases htruth : Text.lower s ∈ ["true", "false"]
  -- A word for truth is nothing else, and its lower case is written out.
  · have hreal := parse?_of_truth htruth
    have hwritten : writtenOut s = Text.lower s := by
      unfold writtenOut
      grind
    rw [hwritten]
    constructor
    · intro h
      exact ⟨fun _ => h ▸ htruth, by simp [signed_none_of_parse? hreal], by simp [hreal]⟩
    · intro h
      have hlower : ∀ w ∈ ["true", "false"], Text.lower w = w := by decide +kernel
      exact hlower s (h.truth htruth)
  · have hwritten : writtenOut s = match Signed.parse? s, Binary64.parse? s with
        | some i, _ => Signed.render i
        | none, some x => x.plain
        | none, none => s := by
      unfold writtenOut
      grind
    rw [hwritten]
    cases hinteger : Signed.parse? s with
    | some i =>
      refine (Signed.render_eq_iff hinteger).trans ⟨fun h => ?_, fun h => h.integer i hinteger⟩
      exact ⟨fun h => absurd h htruth, fun _ _ => h, by simp [hinteger]⟩
    | none =>
      cases hreal : Binary64.parse? s with
      | some x =>
        refine ⟨fun h => ⟨fun h => absurd h htruth, by simp [hinteger], fun y _ hy => ?_⟩, fun h => ?_⟩
        · rw [hreal, Option.some_inj] at hy
          exact hy ▸ h.symm
        · exact (h.real x hinteger hreal).symm
      | none => exact ⟨fun _ => literal_of_parse? htruth hreal, fun _ => rfl⟩

theorem Ordinary.literal (h : Ordinary s) : Literal s := by
  refine literal_of_parse? h.truth (Option.eq_none_iff_forall_ne_some.mpr fun x hx => ?_)
  obtain ⟨c, hc, hother⟩ := h.char
  rw [Binary64.isNumeralChar_of_parse? hx h.word hc] at hother
  cases hother

/-- A number that comes through as it is has no plus sign, no exponent and no needless zero. -/
theorem Literal.plain (h : Literal s) (hnumber : Binary64.parse? s = some x) :
    Binary64.Plain s.toList := by
  cases hinteger : Signed.parse? s with
  | some i => exact Binary64.plain_of_canonical (h.integer i hinteger)
  | none =>
    rw [h.real x hinteger hnumber]
    exact x.plain_form

end Environment

namespace IdentityPart

variable {part : IdentityPart} {w : SettingValue} {s t : String}

theorem put_inj {settings : Settings} (h : part.put s settings = part.put t settings) : s = t := by
  cases part
  · exact congrArg (·.relay.domain) h
  · exact congrArg (·.relay.instanceId) h

theorem eq_alone_of_soleText? {entries : Table SettingValue} (h : part.soleText? entries = some s) :
    entries = part.alone (.text s) := by
  unfold soleText? at h
  split at h
  · split_ifs at h with hnames
    obtain ⟨rfl, rfl⟩ := hnames
    rw [← Option.some_inj.mp h]
    rfl
  · cases h

theorem assign_of_toText? (h : w.toText? = some t) (target : SettingValue) (key : String) :
    target.assign key w = .table (Table.insert (Text.lower key) w target.entries) := by
  cases w with
  | table entries => cases h
  | _ => rw [SettingValue.assign]; nofun

theorem lower_relay : Text.lower "relay" = "relay" := by decide +kernel

theorem lower_field (part : IdentityPart) : Text.lower part.field = part.field := by
  cases part <;> decide +kernel

theorem pathOf_relay : SettingStep.pathOf "relay" = [.key "relay"] := by decide +kernel

/-- A variable's path leads to the same place as the tables of a file. -/
theorem overlay?_key (h : w.toText? = some t) :
    (SettingValue.table []).overlay? [(part.key, w)] = some (.table (part.alone w)) := by
  have hassign := assign_of_toText? h .nil part.field
  rw [lower_field] at hassign
  simp only [SettingValue.overlay?, List.foldlM_cons, List.foldlM_nil, pathOf_key,
    SettingValue.assignAt?, lower_relay, SettingValue.entries, Table.get?, Option.getD_none, hassign,
    Option.map_some, Table.insert]
  rfl

theorem overlay?_alone (h : w.toText? = some t) :
    (SettingValue.table []).overlay? (part.alone w) = some (.table (part.alone w)) := by
  have hassign := assign_of_toText? h (.table []) part.field
  rw [lower_field] at hassign
  simp only [alone, SettingValue.overlay?, List.foldlM_cons, List.foldlM_nil, pathOf_relay,
    SettingValue.assignAt?, SettingValue.assign, SettingValue.assignAll, lower_relay,
    SettingValue.entries, Table.get?, Option.getD_none, hassign, Table.insert]
  rfl

theorem fieldOr_single {α : Type} (convert : SettingValue → Option α) (default : α) (key name : String)
    (w : SettingValue) :
    Table.fieldOr convert default key [(name, w)] = if name = key then convert w else some default := by
  rw [Table.fieldOr, Table.get?, Table.get?]
  split_ifs <;> rfl

theorem ofValue?_alone (h : w.toText? = some t) (base : Settings) :
    base.relay.ofValue? (.table [(part.field, w)]) = some (part.put t base).relay := by
  cases part <;>
    simp only [RelaySettings.ofValue?, SettingValue.fields?, field, fieldOr_single, String.reduceEq, if_true,
      if_false, h, bind, Option.bind] <;>
    rfl

theorem ofEntries?_alone (h : w.toText? = some t) (base : Settings) :
    base.ofEntries? (part.alone w) = some (part.put t base) := by
  simp only [Settings.ofEntries?, alone, fieldOr_single, String.reduceEq, if_true, if_false,
    ofValue?_alone h, bind, Option.bind]
  cases part <;> rfl

end IdentityPart

namespace Settings

variable {files environment : Table String} {part : IdentityPart} {w : SettingValue} {t : String}
  {path : Option String}

theorem load_of_sources (h : sources files path environment = .ok (.table (part.alone w)))
    (hw : w.toText? = some t) (unique : String) :
    load files path environment unique = .ok (part.put t (base environment unique)) := by
  simp only [load, h, bind, Except.bind, SettingValue.entries, IdentityPart.ofEntries?_alone hw]
  rfl

theorem key?_fileVariable : Environment.key? fileVariable = some "config" := by decide +kernel

theorem get?_fileVariable_of_onlySets {s : String}
    (h : Environment.OnlySets environment part.variableName s) :
    environment.get? fileVariable = none := by
  refine Option.eq_none_iff_forall_ne_some.mpr fun v hv => ?_
  obtain ⟨before, after, rfl, hothers⟩ := h
  have hmem := Table.mem_of_get? hv
  simp only [List.mem_append, List.mem_cons, Prod.mk.injEq] at hmem hothers
  have hname : fileVariable ≠ part.variableName := by
    cases part <;> decide
  have hnone := hothers (fileVariable, v) (by tauto)
  rw [key?_fileVariable] at hnone
  cases hnone

/-- With no other source a variable sets its part to what is written out for its text. -/
theorem load_of_onlySets {s : String} (hfiles : files.has usualFile = false)
    (h : Environment.OnlySets environment part.variableName s) (unique : String) :
    load files none environment unique =
      .ok (part.put (Environment.writtenOut s) (base environment unique)) := by
  have hkey : part.key ≠ Environment.listKey := by
    cases part <;> decide
  have hvalue := Environment.toText?_value hkey s
  refine load_of_sources ?_ hvalue unique
  simp [sources, hfiles, get?_fileVariable_of_onlySets h, laidNamed, laid,
    Environment.settings_of_onlySets h part.key?_variableName, IdentityPart.overlay?_key hvalue, bind,
    Except.bind]

/-- With no other source a file that has a text sets its part to that text. -/
theorem load_of_text {file text s : String} (hfiles : files.has usualFile = false)
    (hfile : files.get? file = some text) (htext : (Yaml.parse? text).bind part.soleText? = some s)
    (h : ∀ entry ∈ environment, Environment.key? entry.1 = none) (unique : String) :
    load files (some file) environment unique = .ok (part.put s (base environment unique)) := by
  obtain ⟨entries, hparse, hentries⟩ := Option.bind_eq_some_iff.mp htext
  rw [IdentityPart.eq_alone_of_soleText? hentries] at hparse
  refine load_of_sources (w := .text s) ?_ rfl unique
  have hoverlay : (SettingValue.table []).overlay? (part.alone (.text s)) =
      some (.table (part.alone (.text s))) := IdentityPart.overlay?_alone rfl
  simp [sources, hfiles, hfile, hparse, laidNamed, laidFile, laid, hoverlay,
    Environment.get?_of_none h key?_fileVariable, Environment.settings_of_none h, bind, Except.bind]
  rfl

/-- **Identities from the environment.** With no file and no other setting, a variable with any text sets
its part of the identity to what is written out for the text, and this is the text itself exactly if it
is literal: so are all ordinary texts, and of the numbers only some without a plus sign, an exponent or a
needless zero. A file with the same text as a text always sets the text itself. -/
theorem identity_from_environment (part : IdentityPart) (files environment : Table String)
    (v unique : String) (hfiles : files.has usualFile = false)
    (henvironment : Environment.OnlySets environment part.variableName v) :
    load files none environment unique =
        .ok (part.put (Environment.writtenOut v) (base environment unique)) ∧
      (load files none environment unique = .ok (part.put v (base environment unique)) ↔
        Environment.Literal v) ∧
      (Environment.Ordinary v → Environment.Literal v) ∧
      (∀ x, Environment.Literal v → Binary64.parse? v = some x → Binary64.Plain v.toList) ∧
      ∀ file text others, files.get? file = some text →
        (Yaml.parse? text).bind part.soleText? = some v →
        (∀ entry ∈ others, Environment.key? entry.1 = none) →
        load files (some file) others unique = .ok (part.put v (base others unique)) := by
  have hload := load_of_onlySets hfiles henvironment unique
  refine ⟨hload, ?_, Environment.Ordinary.literal, fun x => Environment.Literal.plain, ?_⟩
  · rw [hload, Except.ok.injEq, ← Environment.literal_iff]
    constructor
    · exact IdentityPart.put_inj
    · intro h
      rw [h]
  · intro file text others hfile htext hothers
    exact load_of_text hfiles hfile htext hothers unique

/-- A padded number loses its zeros in a variable and keeps them in a file. -/
theorem identity_from_environment_sample :
    load [("r.yaml", "relay:\n  instance_id: '007'\n")] none
        [("BROKERLINK_RELAY__INSTANCE_ID", "007"), ("USER", "joe")] "u" =
      .ok (.ofIdentity ⟨"joe", "7"⟩) ∧
    load [("r.yaml", "relay:\n  instance_id: '007'\n")] (some "r.yaml") [("USER", "joe")] "u" =
      .ok (.ofIdentity ⟨"joe", "007"⟩) := by
  obtain ⟨hload, -, -, -, hfile⟩ := identity_from_environment .instanceId
    [("r.yaml", "relay:\n  instance_id: '007'\n")]
    [("BROKERLINK_RELAY__INSTANCE_ID", "007"), ("USER", "joe")] "007" "u" (by decide +kernel)
    ⟨[], [("USER", "joe")], rfl, by decide +kernel⟩
  refine ⟨hload.trans (by decide +kernel), ?_⟩
  exact (hfile "r.yaml" _ [("USER", "joe")] rfl (by decide +kernel) (by decide +kernel)).trans
    (by decide +kernel)

/-- Texts that are read as numbers or truth values give other identities, and two texts the same one. -/
theorem identity_rewritten :
    load [] none [("BROKERLINK_RELAY__INSTANCE_ID", "007"), ("USER", "joe")] "u" =
        .ok (.ofIdentity ⟨"joe", "7"⟩) ∧
      load [] none [("BROKERLINK_RELAY__INSTANCE_ID", "7"), ("USER", "joe")] "u" =
        .ok (.ofIdentity ⟨"joe", "7"⟩) ∧
      load [] none [("BROKERLINK_RELAY__DOMAIN", "1.10")] "u" =
        .ok (.ofIdentity ⟨"1.1", "brokerlink-u"⟩) ∧
      load [] none [("BROKERLINK_RELAY__DOMAIN", "True")] "u" =
        .ok (.ofIdentity ⟨"true", "brokerlink-u"⟩) := by
  decide +kernel

end Settings

end OrderedRelay

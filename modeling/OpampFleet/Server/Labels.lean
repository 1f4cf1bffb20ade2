import OpampFleet.Core.Text
import OpampFleet.Lib.Map

/-!
# Labels and the effective description

The model of `labels.rs`: what an Agent reports, the values of the Host it arrived over, and the labels an operator set
on it and on its Client Agent, merged into the description that every Selector and every fit reads.

A map is read in the order of its keys where the order shows. `quote` is the way a text is shown in an error.
-/

namespace OpampFleet.Server

open Core Lib List Option

inductive AnyValue where
  | stringValue (text : String)
  | other
  deriving DecidableEq

structure KeyValue where
  key : String
  value : Option AnyValue
  deriving DecidableEq

structure AgentDescription where
  identifyingAttributes : List KeyValue
  nonIdentifyingAttributes : List KeyValue
  deriving DecidableEq

def KeyValue.named (key : String) (kv : KeyValue) : Bool := kv.key = key

def KeyValue.text (kv : KeyValue) : Option String :=
  match kv.value with
  | some (.stringValue text) => if text = "" then none else some text
  | _ => none

open KeyValue

def stringValue (attributes : List KeyValue) (key : String) : Option String :=
  (attributes.find? (·.named key)).bind text

def stringAttr (key value : String) : KeyValue := ⟨key, some (.stringValue value)⟩

def reserved : String := "fleet."

def isOurs (key : String) : Bool := key.toList.take reserved.length = reserved.toList

inductive LabelError where
  | unknownAgent
  | invalid (error : String)
  | restatesReported (key : String)
  | storage (error : String)

abbrev Labels := Map String String

def inKeyOrder (set : Labels) : List (String × String) :=
  (set.entries.map fun e => (e.1, e.2)).insertionSort fun a b => a.1 ≤ b.1

variable (quote : String → String) (description : Option AgentDescription)

def checkPair (pair : String × String) : Except String Unit :=
  if isBlank pair.1 then .error "a label key cannot be empty"
  else if isOurs pair.1 then
    .error ("label " ++ quote pair.1 ++ " is in the Server's reserved " ++ quote reserved ++
      " space — the Server fills " ++
      "those keys from the certificate of the Host an Agent arrives over; choose another key")
  else if isBlank pair.2 then
    .error ("label " ++ quote pair.1 ++
      " has an empty value — remove the key instead, or give it the value a Selector " ++
      "should match")
  else .ok ()

def checkPairs (set : Labels) : Except String Unit :=
  (inKeyOrder set).forM (checkPair quote)

def reportedKeys : List String :=
  match description with
  | none => []
  | some d => (d.identifyingAttributes ++ d.nonIdentifyingAttributes).map key

def checkLabels (set : Labels) : Except LabelError Unit :=
  match checkPairs quote set with
  | .error e => .error (.invalid e)
  | .ok () =>
    match ((inKeyOrder set).map Prod.fst).find? fun key => key ∈ reportedKeys description with
    | some clash => .error (.restatesReported clash)
    | none => .ok ()

structure SubjectValues where
  country : String
  state : String
  locality : String
  organization : String
  organizationalUnit : String
  organizationIdentifier : String
  deriving DecidableEq

def SubjectValues.attributes (subject : SubjectValues) : List (String × String) :=
  [("fleet.host.country", subject.country), ("fleet.host.state", subject.state),
    ("fleet.host.locality", subject.locality), ("fleet.host.organization", subject.organization),
    ("fleet.host.site", subject.organizationalUnit),
    ("fleet.host.organization_id", subject.organizationIdentifier)].filter fun (_, value) => value ≠ ""

private lemma SubjectValues.isOurs_attributes (subject : SubjectValues) :
    ∀ pair ∈ subject.attributes, isOurs pair.1 = true := by
  intro pair hpair
  have hmem := mem_of_mem_filter hpair
  simp only [mem_cons, not_mem_nil, or_false] at hmem
  have hkeys : ∀ key ∈ ["fleet.host.country", "fleet.host.state", "fleet.host.locality", "fleet.host.organization",
      "fleet.host.site", "fleet.host.organization_id"], isOurs key = true := by decide
  rcases hmem with rfl | rfl | rfl | rfl | rfl | rfl <;> exact hkeys _ (by simp)

structure Sources where
  /-- The values of the Host it arrived over directly; none behind a Gateway. -/
  host : Option SubjectValues
  reported : Option AgentDescription
  own : Labels
  inherited : Labels

namespace Sources

variable (sources : Sources)

def hostAttributes : List (String × String) :=
  (sources.host.elim [] SubjectValues.attributes).insertionSort fun a b => a.1 ≤ b.1

def labelled : List String → List (String × String) → List KeyValue
  | _, [] => []
  | taken, (key, value) :: labels =>
    if isOurs key || key ∈ taken then labelled taken labels
    else stringAttr key value :: labelled (key :: taken) labels

def label (key : String) : Option String :=
  ((inKeyOrder sources.own ++ inKeyOrder sources.inherited).find? fun pair => pair.1 = key).map Prod.snd

def valueOf (labels : List (String × String)) (key : String) : Option String :=
  (labels.find? fun pair => pair.1 = key).map Prod.snd

section

variable (host : List (String × String)) (reported : Option AgentDescription) (own inherited : Labels)

def addsNothing : Bool :=
  host.isEmpty && own.entries.isEmpty && inherited.entries.isEmpty && !(reportedKeys reported).any isOurs

def construct : AgentDescription :=
  let report := reported.getD ⟨[], []⟩
  let effective : AgentDescription :=
    { identifyingAttributes := report.identifyingAttributes.filter fun kv => !isOurs kv.key
      nonIdentifyingAttributes := host.map (fun pair => stringAttr pair.1 pair.2) ++
        report.nonIdentifyingAttributes.filter fun kv => !isOurs kv.key }
  { effective with
    nonIdentifyingAttributes := effective.nonIdentifyingAttributes ++
      labelled (reportedKeys (some effective)) (inKeyOrder own ++ inKeyOrder inherited) }

def describe : Option AgentDescription :=
  if addsNothing host reported own inherited then reported else some (construct host reported own inherited)

end

/-- The description a Selector is matched against, and a fit decided by. -/
def effectiveDescription : Option AgentDescription :=
  describe sources.hostAttributes sources.reported sources.own sources.inherited

lemma bind_or {α β : Type} (o : Option α) (f g : α → Option β) :
    (o.bind fun x => (f x).or (g x)) = (o.bind f).or (o.bind g) := by
  cases o <;> rfl

variable {key : String}

private lemma find?_labelled (taken : List String) (labels : List (String × String)) :
    (labelled taken labels).find? (·.named key) =
      if isOurs key ∨ key ∈ taken then none else (valueOf labels key).map (stringAttr key) := by
  induction labels generalizing taken with
  | nil => simp [labelled, valueOf]
  | cons pair labels ih =>
    obtain ⟨k, v⟩ := pair
    unfold labelled
    by_cases hkey : k = key
    · subst hkey
      by_cases htaken : isOurs k ∨ k ∈ taken
      · rw [if_pos (by simpa using htaken), ih, if_pos htaken, if_pos htaken]
      · rw [if_neg (by simpa using htaken), if_neg htaken]
        simp [valueOf, stringAttr, named]
    · have hvalue : valueOf ((k, v) :: labels) key = valueOf labels key := by simp [valueOf, hkey]
      rw [hvalue]
      split
      · exact ih taken
      · rw [find?_cons_of_neg (by simp [stringAttr, named, hkey]), ih]
        simp [Ne.symm hkey]

private lemma find?_stringAttrs (labels : List (String × String)) :
    (labels.map fun pair => stringAttr pair.1 pair.2).find? (·.named key) =
      (valueOf labels key).map (stringAttr key) := by
  induction labels with
  | nil => rfl
  | cons pair labels ih =>
    by_cases hkey : pair.1 = key
    · simp [valueOf, stringAttr, named, hkey]
    · simpa [valueOf, stringAttr, named, hkey] using ih

private lemma find?_filter_not_isOurs (attributes : List KeyValue) :
    (attributes.filter fun kv => !isOurs kv.key).find? (·.named key) =
      if isOurs key then none else attributes.find? (·.named key) := by
  have hboth : ∀ kv : KeyValue, (!isOurs kv.key && kv.named key) = (!isOurs key && kv.named key) := by
    intro kv
    by_cases hkey : kv.key = key
    · rw [hkey]
    · simp [named, hkey]
  rw [find?_filter]
  cases hours : isOurs key <;> simp [hboth, hours]

def Reports (reported : Option AgentDescription) (key : String) : Prop := key ∈ reportedKeys reported

instance (reported : Option AgentDescription) (key : String) : Decidable (Reports reported key) :=
  inferInstanceAs (Decidable (_ ∈ _))

lemma reports_some {d : AgentDescription} :
    Reports (some d) key ↔ (d.identifyingAttributes.find? (·.named key)).isSome ∨
      (d.nonIdentifyingAttributes.find? (·.named key)).isSome := by
  change key ∈ (d.identifyingAttributes ++ d.nonIdentifyingAttributes).map KeyValue.key ↔ _
  rw [map_append, mem_append, find?_isSome, find?_isSome]
  simp [KeyValue.named]

section Describe

variable {host : List (String × String)} (hhost : ∀ pair ∈ host, isOurs pair.1 = true)
  (reported : Option AgentDescription) (own inherited : Labels)

private lemma describe_cases : describe host reported own inherited = some (construct host reported own inherited) ∨
    describe host reported own inherited = none ∧ construct host reported own inherited = ⟨[], []⟩ := by
  unfold describe
  split
  next hnothing =>
    simp only [addsNothing, Bool.and_eq_true, List.isEmpty_iff, Bool.not_eq_true', List.any_eq_false] at hnothing
    obtain ⟨⟨⟨rfl, hown⟩, hinherited⟩, hours⟩ := hnothing
    cases reported with
    | none => exact .inr ⟨rfl, by simp [construct, inKeyOrder, hown, hinherited, labelled]⟩
    | some d =>
      have hkept : ∀ kv ∈ d.identifyingAttributes ++ d.nonIdentifyingAttributes, (!isOurs kv.key) = true :=
        fun kv hkv => by simpa using hours kv.key (List.mem_map_of_mem hkv)
      rw [forall_mem_append] at hkept
      left
      simp [construct, inKeyOrder, hown, hinherited, labelled, filter_eq_self.mpr hkept.1, filter_eq_self.mpr hkept.2]
  · exact .inl rfl

private lemma describe_bind {β : Type} (f : AgentDescription → Option β) (hf : f ⟨[], []⟩ = none) :
    (describe host reported own inherited).bind f = f (construct host reported own inherited) := by
  rcases @describe_cases host reported own inherited with heq | ⟨heq, hempty⟩
  · rw [heq, bind_some]
  · rw [heq, hempty, hf, bind_none]

private lemma find?_identifying :
    (describe host reported own inherited).bind (fun d => d.identifyingAttributes.find? (·.named key)) =
      if isOurs key then none else reported.bind fun d => d.identifyingAttributes.find? (·.named key) := by
  rw [describe_bind _ _ _ _ rfl, construct, find?_filter_not_isOurs]
  cases reported <;> rfl

include hhost

lemma valueOf_host (hours : isOurs key = false) : valueOf host key = none := by
  rw [valueOf, map_eq_none_iff, find?_eq_none]
  intro pair hpair hkey
  have htrue := hhost pair hpair
  simp [of_decide_eq_true hkey, hours] at htrue

/-- The host's value comes first, then the reported one, then the Agent's own and the inherited. -/
lemma find?_nonIdentifying :
    (describe host reported own inherited).bind (fun d => d.nonIdentifyingAttributes.find? (·.named key)) =
      ((valueOf host key).map (stringAttr key)).or (if isOurs key then none else
        if Reports reported key then reported.bind fun d => d.nonIdentifyingAttributes.find? (·.named key)
        else (valueOf (inKeyOrder own ++ inKeyOrder inherited) key).map (stringAttr key)) := by
  rw [describe_bind _ _ _ _ rfl, construct]
  simp only [find?_append, find?_stringAttrs, find?_filter_not_isOurs, find?_labelled]
  cases hours : isOurs key with
  | true => simp
  | false =>
    have hnone := valueOf_host hhost hours
    have hreport : Reports reported key ↔ Reports (some (reported.getD ⟨[], []⟩)) key := by
      cases reported <;> simp [Reports, reportedKeys]
    have hbind : (reported.bind fun d => d.nonIdentifyingAttributes.find? (·.named key)) =
        (reported.getD ⟨[], []⟩).nonIdentifyingAttributes.find? (·.named key) := by
      cases reported <;> rfl
    rw [hbind]
    simp only [hreport]
    generalize reported.getD ⟨[], []⟩ = d
    have htaken : Reports (some ⟨d.identifyingAttributes.filter fun kv => !isOurs kv.key,
        host.map (fun pair => stringAttr pair.1 pair.2) ++ d.nonIdentifyingAttributes.filter fun kv => !isOurs kv.key⟩)
        key ↔ Reports (some d) key := by
      simp only [reports_some, find?_append, find?_stringAttrs, find?_filter_not_isOurs, hours, hnone,
        map_none, none_or]
      rfl
    unfold Reports at htaken ⊢
    by_cases hreports : key ∈ reportedKeys (some d)
    · simp [hnone, htaken, hreports]
    · have hnot := mt reports_some.mpr hreports
      rw [not_or, not_isSome_iff_eq_none, not_isSome_iff_eq_none] at hnot
      simp [hnone, htaken, hreports, hnot.2]

end Describe

lemma isOurs_hostAttributes (sources : Sources) : ∀ pair ∈ sources.hostAttributes, isOurs pair.1 = true := by
  intro pair hpair
  have hmem := (mem_insertionSort _).mp hpair
  cases hhost : sources.host with
  | none =>
    simp [hhost] at hmem
  | some subject =>
    rw [hhost] at hmem
    exact subject.isOurs_attributes pair hmem

/-- Labels add no identifying attribute. -/
lemma stringValue_identifying (hours : isOurs key = false) (sources : Sources) :
    (sources.effectiveDescription.bind fun d => stringValue d.identifyingAttributes key) =
      sources.reported.bind fun d => stringValue d.identifyingAttributes key := by
  simp [stringValue, ← bind_assoc, effectiveDescription, find?_identifying, hours]

end Sources

open Sources

/-! ### Each key from the first source -/

def AgentDescription.first (d : AgentDescription) (key : String) : Option KeyValue :=
  (d.identifyingAttributes ++ d.nonIdentifyingAttributes).find? (·.named key)

private lemma mem_inKeyOrder {set : Labels} {pair : String × String} :
    pair ∈ inKeyOrder set ↔ set.lookup pair.1 = some pair.2 :=
  (mem_insertionSort _).trans Map.mem_pairs

private lemma valueOf_inKeyOrder (set : Labels) (key : String) : valueOf (inKeyOrder set) key = set.lookup key := by
  unfold valueOf
  cases hfound : (inKeyOrder set).find? (fun pair => pair.1 = key) with
  | none =>
    refine (eq_none_iff_forall_ne_some.mpr fun value hvalue => ?_).symm
    simpa using find?_eq_none.mp hfound (key, value) (mem_inKeyOrder.mpr hvalue)
  | some pair =>
    have hnamed := find?_some hfound
    rw [← of_decide_eq_true hnamed, mem_inKeyOrder.mp (mem_of_find?_eq_some hfound)]
    rfl

private lemma valueOf_append (labels labels' : List (String × String)) (key : String) :
    valueOf (labels ++ labels') key = (valueOf labels key).or (valueOf labels' key) := by
  simp [valueOf, find?_append, map_or]

/-- Each key has the value of the first source that has it, with the shortcut and without; and no attribute under
`fleet.` is another's than the Host's. -/
theorem described_by_first_source {host : Labels}
    (hhost : ∀ key value, host.lookup key = some value → isOurs key = true)
    (reported : Option AgentDescription) (own inherited : Labels) :
    (∀ key, (describe (inKeyOrder host) reported own inherited).bind (·.first key) =
      ((host.lookup key).map (stringAttr key)).or (if isOurs key then none else
        (reported.bind (·.first key)).or (((own.lookup key).or (inherited.lookup key)).map (stringAttr key)))) ∧
    (∀ key, (describe (inKeyOrder host) reported own inherited).bind (·.first key) =
      (construct (inKeyOrder host) reported own inherited).first key) ∧
    ∀ d, describe (inKeyOrder host) reported own inherited = some d →
      ∀ kv ∈ d.identifyingAttributes ++ d.nonIdentifyingAttributes, isOurs kv.key = true →
        ∃ value, host.lookup kv.key = some value ∧ kv = stringAttr kv.key value := by
  have hours : ∀ pair ∈ inKeyOrder host, isOurs pair.1 = true := fun pair hpair => hhost _ _ (mem_inKeyOrder.mp hpair)
  refine ⟨fun key => ?_, fun key => describe_bind _ _ _ _ rfl, fun d hd kv hkv hkey => ?_⟩
  · simp only [AgentDescription.first, find?_append, bind_or, find?_identifying, find?_nonIdentifying hours,
      valueOf_append, valueOf_inKeyOrder]
    cases hkey : isOurs key with
    | true => simp
    | false =>
      have hnone := valueOf_host hours hkey
      rw [valueOf_inKeyOrder] at hnone
      cases reported with
      | none => simp [hnone, Reports, reportedKeys]
      | some d =>
        cases hfirst : d.identifyingAttributes.find? (·.named key) <;>
          cases hsecond : d.nonIdentifyingAttributes.find? (·.named key) <;> simp [hnone, reports_some, hfirst, hsecond]
  · rcases @describe_cases (inKeyOrder host) reported own inherited with heq | ⟨heq, -⟩
    on_goal 2 => cases heq.symm.trans hd
    cases heq.symm.trans hd
    simp only [construct, mem_append, mem_filter, hkey, Bool.not_true, Bool.false_eq_true, and_false, or_false,
      false_or] at hkv
    rcases hkv with hmem | hmem
    · obtain ⟨pair, hpair, rfl⟩ := List.mem_map.mp hmem
      exact ⟨pair.2, mem_inKeyOrder.mp hpair, rfl⟩
    · have hnone := find?_eq_none.mp ((find?_labelled _ _).trans (if_pos (.inl hkey))) kv hmem
      exact absurd (decide_eq_true rfl) hnone

/-- An Agent that reports a value of its Host is read with the Host's own. -/
theorem described_by_first_source_claimed :
    (describe (inKeyOrder (AList.singleton "fleet.host.site" "b")) (some ⟨[stringAttr "fleet.host.site" "c"], []⟩) ∅
      ∅).bind (·.first "fleet.host.site") = some (stringAttr "fleet.host.site" "b") := by
  have hhost : ∀ key value, (AList.singleton "fleet.host.site" "b" : Labels).lookup key = some value →
      isOurs key = true := by
    intro key value hvalue
    have hmem : key ∈ ["fleet.host.site"] := AList.lookup_isSome.mp (by rw [hvalue]; rfl)
    rw [mem_singleton.mp hmem]
    decide
  exact ((described_by_first_source hhost _ ∅ ∅).1 _).trans rfl

end OpampFleet.Server

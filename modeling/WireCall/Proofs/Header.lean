import WireCall.Proofs.Shape.Layout
import WireCall.Header

/-!
# Headers in any layout

A header is read from an object however this is laid out. Other peers write the members in another
order, put blanks between their parts, escape what need not be escaped, and add members that are
not known here, whose values nest as deep as they like. All of it makes no difference
(`Header.decode_any_layout`): what is read are the texts and the number that the members of the
header denote. An object with two of the same member is refused, and so is one without the name of
the method or the number of the call; the error alone may be left out.
-/

namespace WireCall

open Json (Blanks Spells Member)

/-- Whether the value of a member is a text. -/
def Json.Member.Tells (m : Member) (t : String) : Prop :=
  ∃ w, Spells w (Bytes.ofText t) ∧ m.value.value = Json.enclosed w

/-- Whether the value of a member is a natural number. It is written with its digits: with a
fraction or an exponent it would not be a natural number to the reader. -/
def Json.Member.Counts (m : Member) (n : Nat) : Prop :=
  m.value.value = Numeral.text (.natural n)

namespace Header

/-- **The members of an object that stands for a header**, in no particular order. -/
structure Layout (h : Header) where
  method : Member
  seq : Member
  /-- left out at will, if there is no error to tell -/
  error : Option Member
  /-- members that nobody asks for -/
  others : List Member
  method_named : method.IsNamed "ServiceMethod"
  method_tells : method.Tells h.method
  seq_named : seq.IsNamed "Seq"
  seq_counts : seq.Counts h.seq.toNat
  error_none : error = none → h.error = ""
  error_some : ∀ m ∈ error, m.IsNamed "Error" ∧ m.Tells h.error
  others_named : ∀ m ∈ others, ∃ name, m.IsNamed name ∧
    name ∉ ["ServiceMethod", "Seq", "Error"]

def Layout.members {h : Header} (l : Layout h) : List Member :=
  l.method :: l.seq :: (l.error.toList ++ l.others)

/-- The fields of a header. -/
def fields : Fields :=
  .field "ServiceMethod" .required .text
    (.field "Seq" .required (.natural .w64)
      (.field "Error" .blankIfMissing .text .done))

theorem decode_json_eq_ok_iff {b : Bytes} {h : Header} :
    decode .json b = .ok h ↔ JsonForm.decode shape b = .ok h.toValue := by
  unfold decode Codec.decode
  cases JsonForm.decode shape b with
  | error e => exact iff_of_false nofun nofun
  | ok v =>
    constructor
    · intro hdecode
      obtain rfl := Except.ok.inj hdecode
      rfl
    · intro hdecode
      obtain rfl := Except.ok.inj hdecode
      rfl

variable {front back : Bytes}

/-- **A header is read** just if it is carried by the object. -/
theorem decode_object_iff (hfront : Blanks front) (hback : Blanks back) (o : Json.Object)
    {h : Header} : decode .json (front ++ (o.text ++ back)) = .ok h ↔
      (∀ m ∈ o.members, ∃ key, m.IsNamed key) ∧ JsonForm.Carries fields o.members h.toValue :=
  have hplain : JsonForm.arePlain fields = true := by decide
  have hnames : (JsonForm.names fields).Nodup := by decide
  decode_json_eq_ok_iff.trans (JsonForm.decode_record_eq_ok_iff hplain hnames o hfront hback)

/-- What carries no header is refused. -/
theorem decode_object_error (hfront : Blanks front) (hback : Blanks back) (o : Json.Object)
    (hnone : ∀ v, ¬ JsonForm.Carries fields o.members v) :
    ∃ e, decode .json (front ++ (o.text ++ back)) = .error e := by
  cases hdecode : decode .json (front ++ (o.text ++ back)) with
  | error e => exact ⟨e, rfl⟩
  | ok h => exact absurd ((decode_object_iff hfront hback o).mp hdecode).2 (hnone _)

namespace Layout

variable {h : Header} (l : Layout h)

/-- None of the other members has a name of the header. -/
theorem named_others {name : String} (hname : name ∈ ["ServiceMethod", "Seq", "Error"]) :
    JsonForm.named name l.others = [] := by
  refine JsonForm.named_eq_nil_iff.mpr fun m hm hnamed => ?_
  obtain ⟨other, hother, hnot⟩ := l.others_named m hm
  exact hnot (hother.unique hnamed ▸ hname)

/-- The member of the error, if there is one. -/
theorem named_error (name : String) : JsonForm.named name l.error.toList =
    if "Error" = name then l.error.toList else [] := by
  cases herror : l.error with
  | none => exact (ite_self _).symm
  | some m => exact JsonForm.named_cons (l.error_some m herror).1 name []

/-- Each name of the header has its own member. -/
theorem named_members {name : String} (hname : name ∈ ["ServiceMethod", "Seq", "Error"]) :
    JsonForm.named name l.members =
      if "ServiceMethod" = name then [l.method]
      else if "Seq" = name then [l.seq] else l.error.toList := by
  rw [members, JsonForm.named_cons l.method_named, JsonForm.named_cons l.seq_named,
    JsonForm.named_append, l.named_error, l.named_others hname]
  simp only [List.mem_cons, List.not_mem_nil, or_false] at hname
  rcases hname with rfl | rfl | rfl <;> simp

/-- **The members carry the header**, in any order. -/
theorem carries {members : List Member} (hperm : members.Perm l.members) :
    JsonForm.Carries fields members h.toValue := by
  have hnamed : ∀ name, (JsonForm.named name members).Perm (JsonForm.named name l.members) :=
    fun name => hperm.filter _
  have hmethod := hnamed "ServiceMethod"
  have hseq := hnamed "Seq"
  have herror := hnamed "Error"
  rw [l.named_members (by decide), if_pos rfl, List.perm_singleton] at hmethod
  rw [l.named_members (by decide), if_neg (by decide), if_pos rfl, List.perm_singleton] at hseq
  rw [l.named_members (by decide), if_neg (by decide), if_neg (by decide)] at herror
  simp only [JsonForm.Carries, fields, hmethod, hseq]
  refine ⟨l.method_tells, l.seq_counts, ?_, trivial⟩
  cases hpresent : l.error with
  | none =>
    rw [hpresent, Option.toList_none, List.perm_nil] at herror
    rw [herror]
    exact congrArg some (l.error_none hpresent).symm
  | some m =>
    rw [hpresent, Option.toList_some, List.perm_singleton] at herror
    rw [herror]
    exact (l.error_some m hpresent).2

/-- All names are texts. -/
theorem exists_name {m : Member} (hm : m ∈ l.members) : ∃ name, m.IsNamed name := by
  simp only [members, List.mem_cons, List.mem_append, Option.mem_toList] at hm
  rcases hm with rfl | rfl | hm | hm
  · exact ⟨_, l.method_named⟩
  · exact ⟨_, l.seq_named⟩
  · exact ⟨_, (l.error_some m hm).1⟩
  · obtain ⟨name, hnamed, -⟩ := l.others_named m hm
    exact ⟨name, hnamed⟩

end Layout

/-- **A header is read independently of the layout** of the object that stands for it: the order of
its members, the blanks, the ways in which texts are escaped, and other members make no difference.
An object with two members of one name of the header is refused, and so is one without the method
or the number. -/
theorem decode_any_layout (hfront : Blanks front) (hback : Blanks back) (o : Json.Object) :
    (∀ (h : Header) (l : Layout h), o.members.Perm l.members →
      decode .json (front ++ (o.text ++ back)) = .ok h) ∧
    (∀ name ∈ ["ServiceMethod", "Seq", "Error"], ∀ m m', [m, m'].Sublist o.members →
      m.IsNamed name → m'.IsNamed name →
      ∃ e, decode .json (front ++ (o.text ++ back)) = .error e) ∧
    (∀ name ∈ ["ServiceMethod", "Seq"], (∀ m ∈ o.members, ¬ m.IsNamed name) →
      ∃ e, decode .json (front ++ (o.text ++ back)) = .error e) := by
  refine ⟨?_, ?_, ?_⟩
  · intro h l hperm
    refine (decode_object_iff hfront hback o).mpr ⟨fun m hm => ?_, l.carries hperm⟩
    exact l.exists_name (hperm.mem_iff.mp hm)
  · intro name hname m m' htwo hm hm'
    refine decode_object_error hfront hback o fun v hcarries => ?_
    have hone := hcarries.length_named_le fields hname
    have htwo := JsonForm.two_le_length_named htwo hm hm'
    omega
  · intro name hname hnone
    refine decode_object_error hfront hback o fun v hcarries => ?_
    exact hcarries.named_ne_nil fields hname (JsonForm.named_eq_nil_iff.mpr hnone)

/-! A call as another peer may write it: the number first, then a member that is not known here,
with half of a surrogate pair deep in its value, and the method with escapes in its name and in its
text. The error is left out. -/

namespace Sample

/-- An escape of a capital S. -/
theorem spells_capital {w b : Bytes} (h : Spells w b) :
    Spells (Bytes.ofText "\\u0053" ++ w) (0x53 :: b) :=
  .unicode (c := 'S') (by decide) h

/-- A member without blanks. -/
def bare {name : Bytes} (inside : Json.Inside name) (value : Bytes) : Member where
  name
  value := { value, blanks_front := by decide, blanks_back := by decide }
  blanks_before := by decide
  blanks_between := by decide
  inside

theorem spells_seq : Spells (Bytes.ofText "Seq") (Bytes.ofText "Seq") := .of_unescaped (by decide)

theorem spells_method : Spells (Bytes.ofText "\\u0053" ++ Bytes.ofText "erviceMethod")
    (Bytes.ofText "ServiceMethod") :=
  spells_capital (.of_unescaped (by decide))

theorem spells_sum : Spells (Bytes.ofText "\\u0053" ++ Bytes.ofText "um.Up")
    (Bytes.ofText "Sum.Up") :=
  spells_capital (.of_unescaped (by decide))

theorem spells_trace : Spells (Bytes.ofText "trace") (Bytes.ofText "trace") :=
  .of_unescaped (by decide)

theorem inside_half : Json.Inside (Bytes.ofText "\\ud800") := .unicode (by decide) .nil

/-- The text of `[{"trace":"\ud800"}]`. -/
def nested : Bytes :=
  Json.arrayText [{
    value := Json.memberText
      [bare spells_trace.inside (Json.enclosed (Bytes.ofText "\\ud800"))] []
    blanks_front := by decide
    blanks_back := by decide }] []

theorem nested_valid : Json.IsValue nested := by
  refine .list (by decide) fun p hp => ?_
  obtain rfl := List.mem_singleton.mp hp
  refine .object (by decide) fun m hm => ?_
  obtain rfl := List.mem_singleton.mp hm
  exact .text inside_half

def seq : Member where
  before := [0x0a]
  name := Bytes.ofText "Seq"
  between := [0x20]
  value := {
    value := Bytes.ofText "7"
    back := [0x09]
    blanks_front := by decide
    blanks_back := by decide }
  blanks_before := by decide
  blanks_between := by decide
  inside := spells_seq.inside

def method : Member :=
  bare spells_method.inside (Json.enclosed (Bytes.ofText "\\u0053" ++ Bytes.ofText "um.Up"))

def trace : Member := bare spells_trace.inside nested

theorem valid :
    ∀ m ∈ [seq, trace, method], Json.IsValue m.value.value := by
  intro m hm
  simp only [List.mem_cons, List.not_mem_nil, or_false] at hm
  rcases hm with rfl | rfl | rfl
  · have hseven : Json.IsWhole (Bytes.ofText "7") := .digits (by decide) (by decide) nofun
    exact .number (.intro (.inl rfl) hseven .none .none)
  · exact nested_valid
  · exact .text spells_sum.inside

/-- An object made of some of these members. -/
def object (members : List Member) (h : ∀ m ∈ members, m ∈ [seq, trace, method]) :
    Json.Object where
  members
  isBlanks := by decide
  valid m hm := valid m (h m hm)

def complete : Json.Object := object [seq, trace, method] fun _ h => h

def doubled : Json.Object := object [seq, trace, method, seq] (by simp)

def nameless : Json.Object := object [seq, trace] (by simp)

/-- The call of `Sum.Up` with the number seven. -/
def layout : Layout ⟨"Sum.Up", 7, ""⟩ where
  method := method
  seq := seq
  error := none
  others := [trace]
  method_named := spells_method
  method_tells := ⟨_, spells_sum, rfl⟩
  seq_named := spells_seq
  seq_counts := (by decide : Bytes.ofText "7" = Numeral.text (.natural 7))
  error_none _ := rfl
  error_some := nofun
  others_named m hm := by
    obtain rfl := List.mem_singleton.mp hm
    exact ⟨"trace", spells_trace, by decide⟩

theorem perm_layout : complete.members.Perm layout.members :=
  (List.reverse_perm [method, trace, seq]).trans (.cons _ (.swap _ _ _))

theorem seq_twice : [seq, seq].Sublist doubled.members :=
  .cons_cons _ (.cons _ (.cons _ (.refl _)))

theorem no_method : ∀ m ∈ nameless.members, ¬ m.IsNamed "ServiceMethod" := by
  intro m hm hnamed
  rcases List.mem_pair.mp hm with rfl | rfl
  · have hsame : "ServiceMethod" = "Seq" := hnamed.unique spells_seq
    exact absurd hsame (by decide)
  · have hsame : "ServiceMethod" = "trace" := hnamed.unique spells_trace
    exact absurd hsame (by decide)

end Sample

theorem decode_any_layout_sample :
    decode .json ([0x20] ++ (Sample.complete.text ++ [0x0d])) = .ok ⟨"Sum.Up", 7, ""⟩ ∧
    (∃ e, decode .json ([0x20] ++ (Sample.doubled.text ++ [0x0d])) = .error e) ∧
    ∃ e, decode .json ([0x20] ++ (Sample.nameless.text ++ [0x0d])) = .error e := by
  have hfront : Blanks [0x20] := by decide
  have hback : Blanks [0x0d] := by decide
  obtain ⟨hread, -, -⟩ := decode_any_layout hfront hback Sample.complete
  obtain ⟨-, htwice, -⟩ := decode_any_layout hfront hback Sample.doubled
  obtain ⟨-, -, hmissing⟩ := decode_any_layout hfront hback Sample.nameless
  exact ⟨hread _ Sample.layout Sample.perm_layout,
    htwice "Seq" (by decide) _ _ Sample.seq_twice Sample.spells_seq Sample.spells_seq,
    hmissing "ServiceMethod" (by decide) Sample.no_method⟩

end Header

end WireCall

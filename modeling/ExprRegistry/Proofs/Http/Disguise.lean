import ExprRegistry.Http.Index
import ExprRegistry.Proofs.Http.Percent
import ExprRegistry.Proofs.Http.Url
import ExprRegistry.Proofs.Log.Redact

/-!
What the form of an address that may be shown does not tell. User information is left out of it and the values of
credentials are masked, so two addresses that differ in these only are shown alike, whatever path is added to
them. Main statement: `Disguised.shown_alike`.
-/

namespace ExprRegistry.Http

def isPrintable (c : Char) : Bool := 0x20 ≤ c.toNat && c.toNat < 0x7F

/-- Whether characters are a scheme with its colon, so that what follows is located. -/
def ClosesScheme (front : List Char) : Prop := (splitScheme (cleaned front)).2 = []

/-- User information before a host: printable characters that end neither it nor the authority. -/
def IsUser (user : List Char) : Prop :=
  ∀ c ∈ user, isPrintable c = true ∧ endsAuthority c = false ∧ c ≠ '[' ∧ c ≠ ']'

/-- User information as it stands before a host, with its mark, if there is any. -/
def userPart : Option (List Char) → List Char
  | none => []
  | some user => user ++ ['@']

/-- The value of a credential: printable characters up to the next parameter or the fragment, not only
slashes. -/
structure IsCredential (value : List Char) : Prop where
  inside : ∀ c ∈ value, isPrintable c = true ∧ c ≠ '&' ∧ c ≠ '#'
  given : ∃ c ∈ value, c ≠ '/'

/-- Two addresses that differ in their user information only, or in the value of one parameter of their queries
only, before whose equals sign stands the name of a credential. -/
inductive Disguised (a b : String) : Prop
  | user {front located : List Char} {c : Char} {u v : Option (List Char)} (scheme : ClosesScheme front)
      (host : endsAuthority c = false) (hu : ∀ user ∈ u, IsUser user) (hv : ∀ user ∈ v, IsUser user)
      (ha : a.toList = front ++ '/' :: '/' :: (userPart u ++ c :: located))
      (hb : b.toList = front ++ '/' :: '/' :: (userPart v ++ c :: located)) : Disguised a b
  | value {front located before after v w : List Char} (scheme : ClosesScheme front)
      (path : ∀ c ∈ located, c ≠ '?' ∧ c ≠ '#') (query : ∀ c ∈ before, c ≠ '#')
      (credential : namesCredential before.reverse = true) (hv : IsCredential v) (hw : IsCredential w)
      (last : ∀ c ∈ after.head?, c = '&' ∨ c = '#')
      (ha : a.toList = front ++ '/' :: '/' :: (located ++ '?' :: (before ++ '=' :: (v ++ after))))
      (hb : b.toList = front ++ '/' :: '/' :: (located ++ '?' :: (before ++ '=' :: (w ++ after)))) :
      Disguised a b

/-! ### The parts of an address -/

theorem kept_append (cs more : List Char) : kept (cs ++ more) = kept cs ++ kept more := List.filter_append _ _

theorem isKept_of_ne {c : Char} (tab : c ≠ '\t') (back : c ≠ '\r') (line : c ≠ '\n') :
    (!(c == '\t' || c == '\r' || c == '\n')) = true := by
  simp [tab, back, line]

theorem kept_printable {cs : List Char} (printable : ∀ c ∈ cs, isPrintable c = true) : kept cs = cs := by
  refine List.filter_eq_self.mpr fun c member => isKept_of_ne ?_ ?_ ?_
  all_goals
    rintro rfl
    exact absurd (printable _ member) (by decide)

/-- An address from what stands behind its scheme. -/
theorem safe?_of_scheme {url : String} {front rest : List Char} (scheme : ClosesScheme front)
    (h : url.toList = front ++ '/' :: '/' :: rest) :
    safe? url = ((Url.ofParts? (splitScheme (cleaned front)).1
        ((kept rest).takeWhile (fun c => !endsAuthority c), (kept rest).dropWhile fun c => !endsAuthority c)).bind
      Url.safe?).map fun u => String.ofList u.join := by
  have nonempty : url.isEmpty = false := by
    refine eq_false_of_ne_true fun empty => ?_
    rw [String.isEmpty_iff.mp empty] at h
    simp at h
  have slash : kept ('/' :: rest) = '/' :: kept rest := rfl
  unfold ClosesScheme at scheme
  rw [safe?, nonempty, if_neg Bool.false_ne_true, Url.split?_eq, h, cleaned_append_slash, splitScheme_append_slash,
    scheme, slash, List.nil_append]
  rfl

/-! ### User information -/

theorem afterLast_append (c : Char) (cs more : List Char) : afterLast c (cs ++ c :: more) = afterLast c more := by
  have mark : (c != c) = false := bne_self_eq_false c
  rw [afterLast, List.reverse_append, List.reverse_cons, List.append_assoc, List.singleton_append,
    Text.takeWhile_append_mark (p := fun x => x != c) mark, afterLast]

theorem afterLast_userPart (user : Option (List Char)) (authority : List Char) :
    afterLast '@' (userPart user ++ authority) = afterLast '@' authority := by
  cases user with
  | none => rfl
  | some user =>
      rw [userPart, List.append_assoc, List.singleton_append, afterLast_append]

/-- The characters of user information with its mark. -/
theorem mem_userPart {user : Option (List Char)} (h : ∀ u ∈ user, IsUser u) {c : Char}
    (member : c ∈ userPart user) : isPrintable c = true ∧ endsAuthority c = false ∧ c ≠ '[' ∧ c ≠ ']' := by
  cases user with
  | none => cases member
  | some u =>
      rcases List.mem_append.mp member with inside | mark
      · exact h u rfl c inside
      · rw [List.mem_singleton.mp mark]
        decide

theorem lookalike_of_printable {c : Char} (printable : isPrintable c = true) :
    delimiterLookalikes.contains c.toNat = false := by
  have beyond : ∀ n ∈ delimiterLookalikes, 0x7F ≤ n := by decide
  refine eq_false_of_ne_true fun listed => ?_
  have high := beyond _ (List.contains_iff_mem.mp listed)
  simp only [isPrintable, Bool.and_eq_true, decide_eq_true_eq] at printable
  omega

theorem authorityOk_userPart {user : Option (List Char)} (h : ∀ u ∈ user, IsUser u) (authority : List Char) :
    authorityOk (userPart user ++ authority) = authorityOk authority := by
  have absent (x : Char) (bracket : x = '[' ∨ x = ']') :
      (userPart user ++ authority).contains x = authority.contains x := by
    have outside : x ∉ userPart user := by
      intro member
      obtain ⟨_, _, opens, closes⟩ := mem_userPart h member
      exact bracket.elim opens closes
    rw [Bool.eq_iff_iff, List.contains_iff_mem, List.contains_iff_mem, List.mem_append]
    exact or_iff_right outside
  have plain : (userPart user).all (fun c => !delimiterLookalikes.contains c.toNat) = true :=
    List.all_eq_true.mpr fun c member => by rw [lookalike_of_printable (mem_userPart h member).1]; rfl
  unfold authorityOk hostBesidePort?
  rw [absent '[' (.inl rfl), absent ']' (.inr rfl), afterLast_userPart, List.all_append, plain, Bool.true_and]

theorem Url.safe?_userPart {user : Option (List Char)} (h : ∀ u ∈ user, IsUser u)
    (scheme authority rest : List Char) :
    (ofParts? scheme (userPart user ++ authority, rest)).bind safe? =
      (ofParts? scheme (authority, rest)).bind safe? := by
  unfold ofParts?
  rw [authorityOk_userPart h]
  by_cases formed : authorityOk authority = true
  · have located : hostAndPort (userPart user ++ authority) = hostAndPort authority := by
      rw [hostAndPort, hostAndPort, afterLast_userPart]
    simp only [formed, if_true, Option.bind_some, safe?, located]
  · simp [formed]

theorem safe?_userPart {front : List Char} {user : Option (List Char)} (scheme : ClosesScheme front)
    (h : ∀ u ∈ user, IsUser u) (located : List Char) :
    safe? (String.ofList (front ++ '/' :: '/' :: (userPart user ++ located))) =
      safe? (String.ofList (front ++ '/' :: '/' :: located)) := by
  have printable : kept (userPart user) = userPart user := kept_printable fun c member => (mem_userPart h member).1
  have within : ∀ c ∈ userPart user, (!endsAuthority c) = true := by
    intro c member
    rw [(mem_userPart h member).2.1]
    rfl
  rw [safe?_of_scheme scheme String.toList_ofList, safe?_of_scheme scheme String.toList_ofList, kept_append, printable,
    List.takeWhile_append_of_pos within, List.dropWhile_append_of_pos within, Url.safe?_userPart h]

/-! ### Values of credentials -/

theorem namesCredential_kept {before : List Char} (credential : namesCredential before.reverse = true) :
    namesCredential (kept before).reverse = true := by
  have letters : ∀ word ∈ credentialWords, ∀ letter ∈ word.toList.reverse, ∀ c,
      foldsTo letter c = true → (!(c == '\t' || c == '\r' || c == '\n')) = true := by
    have apart : ∀ word ∈ credentialWords, word.toList.reverse.all (fun letter =>
        !foldsTo letter '\t' && !foldsTo letter '\r' && !foldsTo letter '\n') = true := by decide
    intro word listed letter member c folds
    have away := List.all_eq_true.mp (apart word listed) letter member
    refine isKept_of_ne ?_ ?_ ?_
    all_goals
      rintro rfl
      simp [folds] at away
  rw [kept, ← List.filter_reverse]
  exact namesCredential_filter letters credential

/-- A query behind the path of an address, and what may follow it up to the fragment. -/
theorem Url.ofParts?_query (scheme authority : List Char) {path query rest : List Char}
    (hp : ∀ c ∈ path, c ≠ '?' ∧ c ≠ '#') (hq : ∀ c ∈ query, c ≠ '#') :
    ofParts? scheme (authority, path ++ '?' :: (query ++ rest)) =
      if authorityOk authority then
        some ⟨scheme, authority, path, query ++ (Text.cutAt (· == '#') rest).1,
          (Text.cutAt (· == '#') rest).2.getD []⟩
      else none := by
  have noHash : ∀ c ∈ path ++ '?' :: query, (c == '#') = false := by
    refine List.forall_mem_append.mpr ⟨fun c member => ?_, List.forall_mem_cons.mpr ⟨rfl, fun c member => ?_⟩⟩
    · exact beq_eq_false_iff_ne.mpr (hp c member).2
    · exact beq_eq_false_iff_ne.mpr (hq c member)
  have noQuestion : ∀ c ∈ path, (c == '?') = false := fun c member => beq_eq_false_iff_ne.mpr (hp c member).1
  have cut := Text.cutAt_append (p := (· == '#')) noHash rest
  have split := Text.cutAt_mark (p := (· == '?')) (m := '?') noQuestion rfl (query ++ (Text.cutAt (· == '#') rest).1)
  rw [List.append_assoc, List.append_assoc, List.cons_append, List.cons_append] at cut
  simp only [ofParts?, cut, split, Option.getD_some]

/-- A value that is masked: something is left of it, and it ends neither the parameter nor the query. -/
structure IsMasked (value : List Char) : Prop where
  given : kept value ≠ []
  inside : ∀ c ∈ value, c ≠ '&' ∧ c ≠ '#'

theorem mem_of_mem_kept {cs : List Char} {c : Char} (member : c ∈ kept cs) : c ∈ cs := (List.mem_filter.mp member).1

theorem safe?_value {front located before after v w : List Char} (scheme : ClosesScheme front)
    (path : ∀ c ∈ located, c ≠ '?' ∧ c ≠ '#') (query : ∀ c ∈ before, c ≠ '#')
    (credential : namesCredential before.reverse = true) (hv : IsMasked v) (hw : IsMasked w)
    (last : ∀ c ∈ after.head?, c = '&' ∨ c = '#') :
    safe? (String.ofList (front ++ '/' :: '/' :: (located ++ '?' :: (before ++ '=' :: (v ++ after))))) =
      safe? (String.ofList (front ++ '/' :: '/' :: (located ++ '?' :: (before ++ '=' :: (w ++ after))))) := by
  have parts (x : List Char) : kept (located ++ '?' :: (before ++ '=' :: (x ++ after))) =
      kept located ++ '?' :: ((kept before ++ '=' :: kept x) ++ kept after) := by
    simp [kept]
  have authority := Text.takeWhile_append_mark (p := fun c => !endsAuthority c) (m := '?') rfl (kept located)
  have behind := Text.dropWhile_append_mark (p := fun c => !endsAuthority c) (m := '?') rfl (kept located)
  have noMark : ∀ c ∈ (kept located).dropWhile (fun c => !endsAuthority c), c ≠ '?' ∧ c ≠ '#' :=
    fun c member => path c (mem_of_mem_kept ((List.dropWhile_sublist _).subset member))
  have noHash {x : List Char} (hx : IsMasked x) : ∀ c ∈ kept before ++ '=' :: kept x, c ≠ '#' := by
    refine List.forall_mem_append.mpr ⟨fun c member => query c (mem_of_mem_kept member), ?_⟩
    exact List.forall_mem_cons.mpr ⟨by decide, fun c member => (hx.inside c (mem_of_mem_kept member)).2⟩
  have credential : namesCredential ((kept before).reverse ++ []) = true := by
    rw [List.append_nil]
    exact namesCredential_kept credential
  have ends : ∀ c ∈ (Text.cutAt (· == '#') (kept after)).1.head?, c = '&' := by
    intro c first
    cases after with
    | nil => cases first
    | cons m more =>
        rcases last m rfl with rfl | rfl
        · cases first
          rfl
        · cases first
  have redacted := redactFrom_value credential (fun c member => (hv.inside c (mem_of_mem_kept member)).1)
    (fun c member => (hw.inside c (mem_of_mem_kept member)).1) hv.given hw.given ends false
  rw [safe?_of_scheme scheme String.toList_ofList, safe?_of_scheme scheme String.toList_ofList, parts, parts,
    authority, behind, authority, behind, Url.ofParts?_query _ _ noMark (noHash hv),
    Url.ofParts?_query _ _ noMark (noHash hw)]
  split
  · simp only [Option.bind_some, Url.safe?, List.append_assoc, List.cons_append, redacted]
  · rfl

/-! ### Base addresses -/

/-- Of a value that is not only slashes something is left when those at the end are dropped. -/
theorem IsCredential.stripped {s : String} {front v : List Char} (h : s.toList = front ++ v) (hv : IsCredential v) :
    ∃ rest, (Text.dropTrailing '/' s).toList = front ++ rest ∧ IsMasked rest := by
  obtain ⟨c, member, stop⟩ := hv.given
  obtain ⟨early, late, rfl⟩ := List.append_of_mem member
  rw [← List.append_assoc] at h
  have dropped := Text.dropTrailing_of_stop h stop
  rw [List.append_assoc] at dropped
  have parts : ∀ x ∈ early ++ c :: (Text.dropTrailing '/' (String.ofList late)).toList,
      x ∈ early ++ c :: late := by
    intro x inside
    rcases List.mem_append.mp inside with before | behind
    · exact List.mem_append_left _ before
    · rcases List.mem_cons.mp behind with rfl | later
      · exact member
      · have kept := Text.mem_of_mem_dropTrailing later
        rw [String.toList_ofList] at kept
        exact List.mem_append_right _ (List.mem_cons_of_mem _ kept)
  refine ⟨_, dropped, ?_, fun x inside => (hv.inside x (parts x inside)).2⟩
  rw [kept_printable fun x inside => (hv.inside x (parts x inside)).1]
  exact List.append_ne_nil_of_right_ne_nil _ (List.cons_ne_nil c _)

theorem IsMasked.append {v more : List Char} (hv : IsMasked v) (plain : ∀ c ∈ more, c ≠ '&' ∧ c ≠ '#') :
    IsMasked (v ++ more) := by
  refine ⟨?_, List.forall_mem_append.mpr ⟨hv.inside, plain⟩⟩
  rw [kept_append]
  exact List.append_ne_nil_of_left_ne_nil hv.given _

/-- Two base addresses that are shown alike, also with the path of a package behind them. -/
structure ShownAlike (a b : String) : Prop where
  base : safe? a = safe? b
  package : ∀ name useCache,
    safe? (Index.packageUrl ⟨a, useCache⟩ name) = safe? (Index.packageUrl ⟨b, useCache⟩ name)

section

variable {a b : String} {front located more : List Char}

theorem safe?_append_of_user {c : Char} {u v : Option (List Char)} (scheme : ClosesScheme front)
    (host : endsAuthority c = false) (hu : ∀ user ∈ u, IsUser user) (hv : ∀ user ∈ v, IsUser user)
    (ha : a.toList = front ++ '/' :: '/' :: (userPart u ++ c :: located))
    (hb : b.toList = front ++ '/' :: '/' :: (userPart v ++ c :: located)) (more : List Char) :
    safe? (String.ofList ((Text.dropTrailing '/' a).toList ++ more)) =
      safe? (String.ofList ((Text.dropTrailing '/' b).toList ++ more)) := by
  have stop : c ≠ '/' := by
    rintro rfl
    cases host
  have dropped {s : String} {user : Option (List Char)}
      (h : s.toList = front ++ '/' :: '/' :: (userPart user ++ c :: located)) :
      (Text.dropTrailing '/' s).toList ++ more = front ++ '/' :: '/' ::
        (userPart user ++ (c :: (Text.dropTrailing '/' (String.ofList located)).toList ++ more)) := by
    have h : s.toList = (front ++ '/' :: '/' :: userPart user) ++ c :: located := by simp [h]
    rw [Text.dropTrailing_of_stop h stop]
    simp
  rw [dropped ha, dropped hb, safe?_userPart scheme hu, safe?_userPart scheme hv]

theorem IsCredential.masked {v : List Char} (hv : IsCredential v) : IsMasked v := by
  obtain ⟨c, member, _⟩ := hv.given
  refine ⟨?_, fun c inside => (hv.inside c inside).2⟩
  rw [kept_printable fun c inside => (hv.inside c inside).1]
  exact List.ne_nil_of_mem member

theorem safe?_append_of_value {before after v w : List Char} (scheme : ClosesScheme front)
    (path : ∀ c ∈ located, c ≠ '?' ∧ c ≠ '#') (query : ∀ c ∈ before, c ≠ '#')
    (credential : namesCredential before.reverse = true) (hv : IsCredential v) (hw : IsCredential w)
    (last : ∀ c ∈ after.head?, c = '&' ∨ c = '#')
    (ha : a.toList = front ++ '/' :: '/' :: (located ++ '?' :: (before ++ '=' :: (v ++ after))))
    (hb : b.toList = front ++ '/' :: '/' :: (located ++ '?' :: (before ++ '=' :: (w ++ after))))
    (plain : ∀ c ∈ more, c ≠ '&' ∧ c ≠ '#') :
    safe? (String.ofList ((Text.dropTrailing '/' a).toList ++ more)) =
      safe? (String.ofList ((Text.dropTrailing '/' b).toList ++ more)) := by
  obtain ⟨start, whole⟩ : ∃ start, ∀ x y,
      front ++ '/' :: '/' :: (located ++ '?' :: (before ++ '=' :: (x ++ y))) = start ++ (x ++ y) :=
    ⟨front ++ '/' :: '/' :: (located ++ '?' :: (before ++ ['='])), fun x y => by simp⟩
  rw [whole] at ha hb
  -- what is dropped at the end is dropped from the value itself where nothing stands behind it
  cases after with
  | nil =>
      rw [List.append_nil] at ha hb
      obtain ⟨v', dropped, masked⟩ := hv.stripped ha
      obtain ⟨w', dropped', masked'⟩ := hw.stripped hb
      have alike := safe?_value scheme path query credential (masked.append plain) (masked'.append plain) last
      rw [whole, whole, List.append_nil, List.append_nil] at alike
      rw [dropped, dropped', List.append_assoc, List.append_assoc]
      exact alike
  | cons m after =>
      have mark : m = '&' ∨ m = '#' := last m rfl
      have stop : m ≠ '/' := by
        rcases mark with rfl | rfl
        · decide
        · decide
      have ends (behind : List Char) : ∀ c ∈ (m :: behind).head?, c = '&' ∨ c = '#' := by
        rintro c first
        cases first
        exact mark
      have alike := safe?_value scheme path query credential hv.masked hw.masked
        (ends ((Text.dropTrailing '/' (String.ofList after)).toList ++ more))
      rw [whole, whole] at alike
      rw [← List.append_assoc] at ha hb
      rw [Text.dropTrailing_of_stop ha stop, Text.dropTrailing_of_stop hb stop]
      simpa using alike

theorem Disguised.safe?_append (d : Disguised a b) (plain : ∀ c ∈ more, c ≠ '&' ∧ c ≠ '#') :
    safe? (String.ofList ((Text.dropTrailing '/' a).toList ++ more)) =
      safe? (String.ofList ((Text.dropTrailing '/' b).toList ++ more)) := by
  cases d with
  | user scheme host hu hv ha hb => exact safe?_append_of_user scheme host hu hv ha hb more
  | value scheme path query credential hv hw last ha hb =>
      exact safe?_append_of_value scheme path query credential hv hw last ha hb plain

end

theorem Disguised.shown_alike {a b : String} (d : Disguised a b) :
    ShownAlike (Text.dropTrailing '/' a) (Text.dropTrailing '/' b) := by
  have nothing : ∀ c ∈ ([] : List Char), c ≠ '&' ∧ c ≠ '#' := nofun
  have base := d.safe?_append nothing
  rw [List.append_nil, List.append_nil, String.ofList_toList, String.ofList_toList] at base
  refine ⟨base, fun name useCache => ?_⟩
  have url (s : String) : String.ofList (s.toList ++ ("/expressions/".toList ++ (percentEncode name).toList)) =
      Index.packageUrl ⟨s, useCache⟩ name := by
    rw [← String.toList_inj, Index.packageUrl]
    simp
  have segment : ∀ c ∈ "/expressions/".toList ++ (percentEncode name).toList, c ≠ '&' ∧ c ≠ '#' :=
    List.forall_mem_append.mpr ⟨by simp, fun c member => mem_percentEncode member⟩
  rw [← url, ← url]
  exact d.safe?_append segment

end ExprRegistry.Http

import FluentFixtures.Proofs.Files.Wildcard

/-!
# Exact searches

A pattern of one name finds the files that are entries of a directory under the
names it can cut, and no others: `search_exact`. To tell what is at a path the
system has to take it, so a search gives an answer if and only if no path that
it needs is too long: `search_cases`.
-/

namespace FluentFixtures.Files.FileSystem

variable {fs : FileSystem} {around : Location} {base p : Path} {t name path : Text}
  {result : Except SearchError (List Path)}

/-! ## Looking up names -/

theorem isName_of_node? (h : (fs.node? (name :: around)).isSome = true) : isName name = true := by
  obtain ⟨node, hnode⟩ := Option.isSome_iff_exists.mp h
  have hentry : nodeAt fs.entries (name :: around) = some node := hnode
  rw [nodeAt_cons] at hentry
  obtain ⟨e, hfind, -⟩ := Option.map_eq_some_iff.mp hentry
  have hplace : e.place = name :: around := by simpa using List.find?_some hfind
  rw [← (List.cons.inj hplace).1]
  exact fs.named e (List.mem_of_find?_eq_some hfind)

theorem step_of_isName (hdirectory : fs.node? around = some .directory)
    (hname : isName name = true) :
    fs.step around name =
      if (fs.node? (name :: around)).isSome then .ok (name :: around) else .error .notFound := by
  obtain ⟨hsaid, hup, -⟩ := facts_of_isName hname
  have hshort : ¬ byteSize name > nameLimit := by
    simp only [isName, Bool.and_eq_true, decide_eq_true_eq] at hname
    exact Nat.not_lt.mpr hname.2
  rw [step, hdirectory]
  simp only [hsaid, hup, hshort, Bool.false_eq_true, if_false]

/-- The text of the path of a name ends in the name, after what the path before it has. -/
theorem exists_toText_child (base : Path) (name : Text) :
    ∃ front, (base.child name).toText = front ++ name ∧
      ∀ c ∈ front, c ∈ base.toText ∨ c = Path.separator := by
  by_cases hnames : base.names = []
  · obtain ⟨absolute, names⟩ := base
    obtain rfl : names = [] := hnames
    cases absolute with
    | true => exact ⟨[Path.separator], rfl, fun c hc => .inr (List.mem_singleton.mp hc)⟩
    | false => exact ⟨[], rfl, nofun⟩
  · refine ⟨base.toText ++ [Path.separator], ?_, fun c hc => ?_⟩
    · rw [Path.toText_child hnames, List.append_assoc, List.singleton_append]
    · rcases List.mem_append.mp hc with hc | hc
      · exact .inl hc
      · exact .inr (List.mem_singleton.mp hc)

theorem lookUp_of_null (h : 0 ∈ path) : fs.lookUp path = .ok none := by
  have hnull : path.contains 0 = true := by simpa using h
  rw [lookUp, place?, resolve, if_pos hnull]
  rfl

theorem not_mem_of_isName (h : isName name = true) : 0 ∉ name := by
  simp only [isName, Bool.and_eq_true, Bool.not_eq_true', List.contains_eq_mem,
    decide_eq_false_iff_not] at h
  exact h.1.2

/-- The path of a name has no null where neither the name nor the path before it has one. -/
theorem not_mem_toText_child (hbase : 0 ∉ base.toText) (hname : 0 ∉ name) :
    0 ∉ (base.child name).toText := by
  obtain ⟨front, htext, hfront⟩ := exists_toText_child base name
  rw [htext, List.mem_append]
  rintro (hmem | hmem)
  · rcases hfront 0 hmem with hmem | hzero
    · exact hbase hmem
    · cases hzero
  · exact hname hmem

/-- The last step on the path of a name is the one to that name. -/
theorem foldlM_step_toText_child (hclean : base.Clean) (hplace : fs.resolve base.toText = .ok around)
    (hname : isName name = true) :
    (Text.splitOn Path.separator (base.child name).toText).foldlM fs.step
      (if Path.isAbsolute (base.child name).toText then [] else fs.workingDirectory) =
        fs.step around name := by
  obtain ⟨-, -, -, hbase⟩ := resolve_eq_ok_iff.mp hplace
  obtain ⟨hsaid, -, hseparator⟩ := facts_of_isName hname
  rw [Path.isAbsolute_toText hclean] at hbase
  have hstart : (base.child name).absolute = base.absolute := rfl
  rw [Path.isAbsolute_toText (hclean.child hsaid hseparator), hstart,
    foldlM_step_child hseparator fun habsolute => if_pos habsolute, hbase]
  rfl

/-- At the path of a name in a directory is the entry of that name, if the system takes the
path. -/
theorem lookUp_child (hclean : base.Clean) (hplace : fs.resolve base.toText = .ok around)
    (hdirectory : fs.node? around = some .directory) (hname : isName name = true) :
    fs.lookUp (base.child name).toText =
      if pathLimit < byteSize (base.child name).toText then
        .error (.refused .nameTooLong (base.child name).toText)
      else .ok (fs.node? (name :: around)) := by
  have hnull : (base.child name).toText.contains 0 = false := by
    rw [List.contains_eq_mem, decide_eq_false_iff_not]
    exact not_mem_toText_child (resolve_eq_ok_iff.mp hplace).1 (not_mem_of_isName hname)
  have hempty : (base.child name).toText.isEmpty = false := by
    obtain ⟨front, htext, -⟩ := exists_toText_child base name
    have hnonempty : name ≠ [] := by
      rintro rfl
      cases (facts_of_isName hname).1
    simp [htext, hnonempty]
  rw [lookUp, place?, resolve, hnull, if_neg Bool.false_ne_true, locate, hempty,
    if_neg Bool.false_ne_true, foldlM_step_toText_child hclean hplace hname,
    step_of_isName hdirectory hname]
  by_cases hlong : pathLimit < byteSize (base.child name).toText
  · rw [if_pos hlong, if_pos hlong]
    rfl
  · rw [if_neg hlong, if_neg hlong]
    cases hnode : fs.node? (name :: around) with
    | none => rfl
    | some node =>
      show Except.ok (fs.node? (name :: around)) = _
      rw [hnode]

/-! ## Selected names -/

theorem exists_child_iff : (∃ e ∈ fs.children around, e.name = name) ↔
    (fs.node? (name :: around)).isSome = true := by
  show _ ↔ (nodeAt fs.entries (name :: around)).isSome = true
  rw [Option.isSome_iff_ne_none, ne_eq, nodeAt_eq_none_iff, not_not]
  simp [children, Entry.place, and_comm, and_left_comm]

section Directory

variable {found files : List Path} {e : AccessError}
  (ht : Pattern.OneName t) (hclean : base.Clean) (hplace : fs.resolve base.toText = .ok around)
  (hdirectory : fs.node? around = some .directory)

include hplace in
theorem select_wildcard (pieces : List Piece) :
    fs.select false [.wildcard pieces] base =
      .ok ((fs.children around).filterMap fun e =>
        if Piece.matchesName pieces e.name then some (base.child e.name) else none) := by
  have hplace? : fs.place? base.toText = .ok (some around) := place?_eq_ok_some_iff.mpr hplace
  simp [select_one, matching, hplace?, Except.map]

theorem isName_of_oneName (ht : Pattern.OneName t) (hnull : 0 ∉ t) : isName t = true := by
  simp [isName, ht.saysNothing, ht.ne_up, ht.separator_not_mem, hnull, ht.short]

include ht hclean hplace hdirectory

theorem eq_node?_of_lookUp {node : Option Node} (h : fs.lookUp (base.child t).toText = .ok node) :
    node = fs.node? (t :: around) := by
  by_cases hnull : 0 ∈ t
  · have hnode : fs.node? (t :: around) = none := by
      refine Option.eq_none_iff_forall_ne_some.mpr fun node hnode => ?_
      have hname := isName_of_node? (Option.isSome_of_mem hnode)
      simp [isName, hnull] at hname
    obtain ⟨front, htext, -⟩ := exists_toText_child base t
    rw [lookUp_of_null (htext ▸ List.mem_append_right front hnull)] at h
    cases h
    exact hnode.symm
  · rw [lookUp_child hclean hplace hdirectory (isName_of_oneName ht hnull)] at h
    split at h
    · cases h
    · cases h
      rfl

/-- What a pattern stands for is the entries whose names it cuts. -/
theorem mem_select_iff (h : fs.select false [Pattern.component t] base = .ok found) :
    p ∈ found ↔ ∃ name, p = base.child name ∧ (fs.node? (name :: around)).isSome = true ∧
      Pattern.Cuts t name := by
  have haccepts (name : Text) : (Pattern.component t).Accepts name ↔ Pattern.Cuts t name :=
    Pattern.accepts_iff_cuts ht.bracket_not_mem
  simp only [← haccepts]
  cases hcomponent : Pattern.component t with
  | name given =>
    obtain rfl := Pattern.component_eq_name hcomponent
    rw [hcomponent, select_one] at h
    obtain ⟨node, hlookUp, hfound⟩ := map_eq_ok_iff.mp h
    obtain rfl := eq_node?_of_lookUp ht hclean hplace hdirectory hlookUp
    simp only [Component.Accepts]
    cases hnode : fs.node? (given :: around) with
    | none =>
      rw [hnode] at hfound
      cases hfound
      simp [hnode]
    | some node =>
      have hfound : [base.child given] = found := by simpa [hnode] using hfound
      rw [← hfound, List.mem_singleton]
      simp [hnode]
  | wildcard pieces =>
    rw [hcomponent, select_wildcard hplace] at h
    cases h
    simp only [Component.Accepts, ← exists_child_iff, List.mem_filterMap]
    constructor
    · rintro ⟨e, he, hchild⟩
      split at hchild
      · next hmatches =>
        cases hchild
        exact ⟨e.name, rfl, ⟨e, he, rfl⟩, hmatches⟩
      · cases hchild
    · rintro ⟨-, rfl, ⟨e, he, rfl⟩, hmatches⟩
      exact ⟨e, he, if_pos hmatches⟩
  | anyDepth => exact absurd hcomponent (Pattern.component_ne_anyDepth t)

end Directory

/-! ## Asking for names -/

/-- Whether a search asks where a path leads: the path of an entry whose name the pattern cuts, or
of the name that a pattern without wildcards is. -/
def Asks (fs : FileSystem) (t : Text) (base : Path) (around : Location) (p : Path) : Prop :=
  ∃ name, p = base.child name ∧ isName name = true ∧ Pattern.Cuts t name ∧
    ((fs.node? (name :: around)).isSome = true ∨ t.any Component.isWildcard = false)

section Directory

variable {found files : List Path} {e : AccessError}
  (ht : Pattern.OneName t) (hclean : base.Clean) (hplace : fs.resolve base.toText = .ok around)
  (hdirectory : fs.node? around = some .directory)

include hclean hplace hdirectory

theorem Asks.lookUp_eq (h : fs.Asks t base around p) :
    ∃ node, fs.lookUp p.toText =
      if pathLimit < byteSize p.toText then .error (.refused .nameTooLong p.toText)
      else .ok node := by
  obtain ⟨name, rfl, hname, -⟩ := h
  exact ⟨_, lookUp_child hclean hplace hdirectory hname⟩

theorem Asks.tooLong_of_error (h : fs.Asks t base around p) (he : fs.lookUp p.toText = .error e) :
    pathLimit < byteSize p.toText ∧ e = .refused .nameTooLong p.toText := by
  obtain ⟨node, hlookUp⟩ := h.lookUp_eq hclean hplace hdirectory
  rw [hlookUp] at he
  split at he
  · next hlong =>
    cases he
    exact ⟨hlong, rfl⟩
  · cases he

theorem Asks.short_of_ok (h : fs.Asks t base around p) {node : Option Node}
    (hnode : fs.lookUp p.toText = .ok node) : byteSize p.toText ≤ pathLimit := by
  obtain ⟨other, hlookUp⟩ := h.lookUp_eq hclean hplace hdirectory
  rw [hlookUp] at hnode
  split at hnode
  · cases hnode
  · next hshort => exact Nat.not_lt.mp hshort

omit hclean hdirectory in
theorem asks_of_select_error (ht : Pattern.OneName t)
    (h : fs.select false [Pattern.component t] base = .error e) :
    ∃ p, fs.Asks t base around p ∧ fs.lookUp p.toText = .error e := by
  have haccepts (name : Text) : (Pattern.component t).Accepts name ↔ Pattern.Cuts t name :=
    Pattern.accepts_iff_cuts ht.bracket_not_mem
  by_cases hwild : t.any Component.isWildcard = true
  · rw [Pattern.component, if_pos hwild, select_wildcard hplace] at h
    cases h
  · have hcomponent : Pattern.component t = .name t := if_neg hwild
    rw [hcomponent, select_one] at h
    have hlookUp : fs.lookUp (base.child t).toText = .error e := map_eq_error_iff.mp h
    have hnull : 0 ∉ t := by
      intro hnull
      obtain ⟨front, htext, -⟩ := exists_toText_child base t
      rw [lookUp_of_null (htext ▸ List.mem_append_right front hnull)] at hlookUp
      cases hlookUp
    have hcuts : Pattern.Cuts t t := (haccepts t).mp (hcomponent ▸ rfl)
    exact ⟨base.child t, ⟨t, rfl, isName_of_oneName ht hnull, hcuts, .inr (Bool.eq_false_iff.mpr hwild)⟩,
      hlookUp⟩

include ht

theorem asks_of_mem_select (h : fs.select false [Pattern.component t] base = .ok found)
    (hp : p ∈ found) : fs.Asks t base around p := by
  obtain ⟨name, rfl, hnode, hcuts⟩ := (mem_select_iff ht hclean hplace hdirectory h).mp hp
  exact ⟨name, rfl, isName_of_node? hnode, hcuts, .inl hnode⟩

/-- A search that fails has asked for a path that is too long. -/
theorem exists_tooLong (h : fs.selectFiles t base = .error e) :
    ∃ p, fs.Asks t base around p ∧ pathLimit < byteSize p.toText ∧
      e = .refused .nameTooLong p.toText := by
  obtain ⟨p, hasks, herror⟩ : ∃ p, fs.Asks t base around p ∧ fs.lookUp p.toText = .error e := by
    rcases bind_eq_error_iff.mp h with hselect | ⟨found, hselect, hfilter⟩
    · exact asks_of_select_error hplace ht hselect
    · obtain ⟨p, hp, herror⟩ := filterM_eq_error hfilter
      exact ⟨p, asks_of_mem_select ht hclean hplace hdirectory hselect hp,
        map_eq_error_iff.mp herror⟩
  exact ⟨p, hasks, hasks.tooLong_of_error hclean hplace hdirectory herror⟩

theorem short_of_selectFiles (h : fs.selectFiles t base = .ok files)
    (hasks : fs.Asks t base around p) : byteSize p.toText ≤ pathLimit := by
  obtain ⟨found, hselect, hfilter⟩ := bind_eq_ok_iff.mp h
  obtain ⟨node, hnode⟩ : ∃ node, fs.lookUp p.toText = .ok node := by
    obtain ⟨name, rfl, -, hcuts, hnode | hwild⟩ := hasks
    · have hmem := (mem_select_iff ht hclean hplace hdirectory hselect).mpr ⟨name, rfl, hnode, hcuts⟩
      obtain ⟨b, hb⟩ := exists_of_filterM hfilter hmem
      obtain ⟨node, hnode, -⟩ := map_eq_ok_iff.mp hb
      exact ⟨node, hnode⟩
    · obtain rfl := (Pattern.cuts_of_no_wildcard hwild).mp hcuts
      rw [Pattern.component, if_neg (by simp [hwild]), select_one] at hselect
      obtain ⟨node, hnode, -⟩ := map_eq_ok_iff.mp hselect
      exact ⟨node, hnode⟩
  exact hasks.short_of_ok hclean hplace hdirectory hnode

theorem mem_selectFiles_iff (h : fs.selectFiles t base = .ok files) :
    p ∈ files ↔ ∃ name content, p = base.child name ∧
      fs.node? (name :: around) = some (.file content) ∧ Pattern.Cuts t name := by
  obtain ⟨found, hselect, hfilter⟩ := bind_eq_ok_iff.mp h
  rw [mem_filterM_iff hfilter, mem_select_iff ht hclean hplace hdirectory hselect]
  have hisFile {name : Text} (hnode : (fs.node? (name :: around)).isSome = true)
      (hcuts : Pattern.Cuts t name) :
      fs.isFile (base.child name) = .ok ((fs.node? (name :: around)).any Node.isFile) := by
    have hname := isName_of_node? hnode
    have hshort := short_of_selectFiles ht hclean hplace hdirectory h
      ⟨name, rfl, hname, hcuts, .inl hnode⟩
    rw [isFile, lookUp_child hclean hplace hdirectory hname, if_neg (Nat.not_lt.mpr hshort)]
    rfl
  constructor
  · rintro ⟨⟨name, rfl, hnode, hcuts⟩, hfile⟩
    rw [hisFile hnode hcuts, Except.ok.injEq] at hfile
    obtain ⟨node, hnode⟩ := Option.isSome_iff_exists.mp hnode
    rw [hnode] at hfile
    cases node with
    | directory => cases hfile
    | file content => exact ⟨name, content, rfl, hnode, hcuts⟩
  · rintro ⟨name, content, rfl, hnode, hcuts⟩
    have hsome := Option.isSome_of_mem hnode
    refine ⟨⟨name, rfl, hsome, hcuts⟩, ?_⟩
    rw [hisFile hsome hcuts, hnode]
    rfl

end Directory

/-! ## Searching -/

/-- What a search of a directory comes to: the entries that are files and whose names the pattern
cuts, strictly upwards, unless a path that is asked for is too long. -/
structure Discovers (fs : FileSystem) (t : Text) (base : Path) (around : Location)
    (result : Except SearchError (List Path)) : Prop where
  returns_iff : (∃ paths, result = .ok paths) ↔
    ∀ p, fs.Asks t base around p → byteSize p.toText ≤ pathLimit
  fault : ∀ e, result = .error e → ∃ p, fs.Asks t base around p ∧ pathLimit < byteSize p.toText ∧
    e = .access (.refused .nameTooLong p.toText)
  exact : ∀ paths, result = .ok paths → ∀ p, p ∈ paths ↔ ∃ name content, p = base.child name ∧
    fs.node? (name :: around) = some (.file content) ∧ Pattern.Cuts t name
  increasing : ∀ paths, result = .ok paths →
    paths.Pairwise fun p q => Text.compare p.name q.name = .lt

theorem discovers_selectFiles (ht : Pattern.OneName t) (hclean : base.Clean)
    (hplace : fs.resolve base.toText = .ok around) (hdirectory : fs.node? around = some .directory) :
    fs.Discovers t base around (((fs.selectFiles t base).map sorted).mapError .access) := by
  cases hfiles : fs.selectFiles t base with
  | error e =>
    obtain ⟨p, hasks, hlong, rfl⟩ := exists_tooLong ht hclean hplace hdirectory hfiles
    constructor
    case returns_iff =>
      constructor
      · rintro ⟨paths, ⟨⟩⟩
      · intro hshort
        exact absurd (hshort p hasks) (Nat.not_le.mpr hlong)
    case fault =>
      rintro e ⟨⟩
      exact ⟨p, hasks, hlong, rfl⟩
    case exact => rintro paths ⟨⟩
    case increasing => rintro paths ⟨⟩
  | ok files =>
    constructor
    case returns_iff =>
      exact ⟨fun _ p => short_of_selectFiles ht hclean hplace hdirectory hfiles,
        fun _ => ⟨sorted files, rfl⟩⟩
    case fault => rintro e ⟨⟩
    case exact =>
      rintro paths ⟨⟩ p
      rw [mem_sorted, mem_selectFiles_iff ht hclean hplace hdirectory hfiles]
    case increasing =>
      rintro paths ⟨⟩
      obtain ⟨found, hselect, hfilter⟩ := bind_eq_ok_iff.mp hfiles
      have hin : ∀ p ∈ files, fs.FileIn base around p := by
        intro p hp
        obtain ⟨hmem, hfile⟩ := (mem_filterM_iff hfilter).mp hp
        exact (fileIn_of_isFile ht hclean hplace hselect hmem hfile).1
      exact pairwise_sorted_of_fileIn hin

theorem search_of_no_directory (ht : Pattern.OneName t) {directory : Text}
    (h : ∀ around, fs.resolve (Path.ofText directory).toText = .ok around →
      fs.node? around ≠ some .directory) :
    fs.search directory (.scalar (.str t)) =
      match fs.resolve (Path.ofText directory).toText with
      | .error (.refused .nameTooLong path) => .error (.access (.refused .nameTooLong path))
      | _ => .ok [] := by
  cases hresolve : fs.resolve (Path.ofText directory).toText with
  | ok around =>
    have hlookUp : fs.lookUp (Path.ofText directory).toText = .ok (fs.node? around) := by
      rw [lookUp, place?, hresolve]
      rfl
    exact search_of_other ht hlookUp (h around hresolve)
  | error e =>
    have hother (hlookUp : fs.lookUp (Path.ofText directory).toText = .ok none) :
        fs.search directory (.scalar (.str t)) = .ok [] := search_of_other ht hlookUp nofun
    cases e with
    | nullCharacter =>
      refine hother ?_
      rw [lookUp, place?, hresolve]
      rfl
    | refused reason path =>
      cases reason with
      | nameTooLong =>
        refine search_of_error ht ?_
        rw [lookUp, place?, hresolve]
        rfl
      | _ =>
        refine hother ?_
        rw [lookUp, place?, hresolve]
        rfl

/-- Whether the system refuses a path that a search of a directory needs, and with which error: the
path of the directory, or one that is asked for in it. -/
inductive Unsearchable (fs : FileSystem) (t directory : Text) : AccessError → Prop
  | directory {path : Text}
    (h : fs.resolve (Path.ofText directory).toText = .error (.refused .nameTooLong path)) :
    Unsearchable fs t directory (.refused .nameTooLong path)
  | entry {around : Location} {p : Path}
    (hplace : fs.resolve (Path.ofText directory).toText = .ok around)
    (hdirectory : fs.node? around = some .directory)
    (hasks : fs.Asks t (Path.ofText directory) around p) (hlong : pathLimit < byteSize p.toText) :
    Unsearchable fs t directory (.refused .nameTooLong p.toText)

/-- A search gives an answer if and only if the system takes all paths that it needs, and else the
error of one of them. -/
theorem search_cases (ht : Pattern.OneName t) (fs : FileSystem) (directory : Text) :
    (∃ e, fs.Unsearchable t directory e ∧
        fs.search directory (.scalar (.str t)) = .error (.access e)) ∨
      (∀ e, ¬ fs.Unsearchable t directory e) ∧
        ∃ paths, fs.search directory (.scalar (.str t)) = .ok paths := by
  by_cases h : ∃ around, fs.resolve (Path.ofText directory).toText = .ok around ∧
      fs.node? around = some .directory
  · obtain ⟨around, hplace, hdirectory⟩ := h
    have hlookUp : fs.lookUp (Path.ofText directory).toText = .ok (some .directory) := by
      rw [lookUp, place?_eq_ok_some_iff.mpr hplace]
      exact congrArg Except.ok hdirectory
    have hdiscovers := discovers_selectFiles ht (Path.clean_ofText directory) hplace hdirectory
    rw [search_of_directory ht hlookUp]
    cases hfiles : fs.selectFiles t (Path.ofText directory) with
    | error e =>
      rw [hfiles] at hdiscovers
      obtain ⟨p, hasks, hlong, he⟩ := hdiscovers.fault _ rfl
      cases he
      exact .inl ⟨_, .entry hplace hdirectory hasks hlong, rfl⟩
    | ok files =>
      rw [hfiles] at hdiscovers
      refine .inr ⟨fun e he => ?_, _, rfl⟩
      cases he with
      | directory hrefused => cases hplace.symm.trans hrefused
      | entry hplace' _ hasks hlong =>
        obtain rfl := Except.ok.inj (hplace.symm.trans hplace')
        exact absurd (hdiscovers.returns_iff.mp ⟨_, rfl⟩ _ hasks) (Nat.not_le.mpr hlong)
  · have hother (around : Location)
        (hplace : fs.resolve (Path.ofText directory).toText = .ok around) :
        fs.node? around ≠ some .directory := fun hdirectory => h ⟨around, hplace, hdirectory⟩
    rw [search_of_no_directory ht hother]
    split
    · next path hrefused => exact .inl ⟨_, .directory hrefused, rfl⟩
    · next hanswer =>
      refine .inr ⟨fun e he => ?_, _, rfl⟩
      cases he with
      | directory hrefused => exact hanswer _ hrefused
      | entry hplace hdirectory _ _ => exact hother _ hplace hdirectory

/-- A pattern of one name finds the files of a directory whose names it cuts, and nothing where
there is no directory. -/
theorem search_exact (ht : Pattern.OneName t) (fs : FileSystem) (directory : Text) :
    (∀ around, fs.resolve (Path.ofText directory).toText = .ok around →
      fs.node? around = some .directory →
      fs.Discovers t (Path.ofText directory) around (fs.search directory (.scalar (.str t)))) ∧
    ((∀ around, fs.resolve (Path.ofText directory).toText = .ok around →
        fs.node? around ≠ some .directory) →
      fs.search directory (.scalar (.str t)) =
        match fs.resolve (Path.ofText directory).toText with
        | .error (.refused .nameTooLong path) => .error (.access (.refused .nameTooLong path))
        | _ => .ok []) := by
  refine ⟨fun around hplace hdirectory => ?_, search_of_no_directory ht⟩
  have hlookUp : fs.lookUp (Path.ofText directory).toText = .ok (some .directory) := by
    rw [lookUp, place?_eq_ok_some_iff.mpr hplace]
    exact congrArg Except.ok hdirectory
  rw [search_of_directory ht hlookUp]
  exact discovers_selectFiles ht (Path.clean_ofText directory) hplace hdirectory

def oneDirectory : FileSystem where
  entries := [⟨"d", [], .directory⟩, ⟨"f.json", [("d" : Text)], .file [0x5B, 0x5D]⟩,
    ⟨".json", [("d" : Text)], .file []⟩, ⟨"g.json", [("d" : Text)], .directory⟩]
  workingDirectory := []
  distinct := by decide
  named := by decide
  nested := by decide

def jsonNames : Text := "*.json"

theorem oneName_jsonNames : Pattern.OneName jsonNames where
  ne_nil := by decide
  ne_here := by decide
  ne_up := by decide
  short := by decide
  separator_not_mem := by decide
  bracket_not_mem := by decide
  stars_apart := by decide

/-- The names in a directory. -/
theorem search_exact_oneDirectory : Pattern.OneName jsonNames ∧
    oneDirectory.resolve (Path.ofText "d").toText = .ok [("d" : Text)] ∧
    oneDirectory.node? [("d" : Text)] = some .directory ∧
    oneDirectory.Discovers jsonNames (Path.ofText "d") [("d" : Text)]
      (oneDirectory.search "d" (.scalar (.str jsonNames))) := by
  have hplace : oneDirectory.resolve (Path.ofText "d").toText = .ok [("d" : Text)] := rfl
  have hdirectory : oneDirectory.node? [("d" : Text)] = some .directory := rfl
  exact ⟨oneName_jsonNames, hplace, hdirectory,
    (search_exact oneName_jsonNames oneDirectory "d").1 _ hplace hdirectory⟩

/-- A path into a directory that goes in and out many times first. -/
def detour : Text := (List.replicate 900 ("d/../" : Text)).flatten ++ ("d" : Text)

theorem toText_detour : (Path.ofText detour).toText = detour := by
  have hnames : (Text.splitOn Path.separator detour).filter (fun name => !Path.saysNothing name) =
      Text.splitOn Path.separator detour := List.filter_eq_self.mpr (by decide +kernel)
  have hstart : Path.isAbsolute detour = false := rfl
  have hsome : (Text.splitOn Path.separator detour).isEmpty = false := by decide +kernel
  rw [Path.ofText, hnames, hstart, Path.toText, if_neg Bool.false_ne_true, hsome,
    if_neg Bool.false_ne_true]
  exact Text.joinWith_splitOn Path.separator detour

/-- No system takes the path. -/
theorem search_detour (ht : Pattern.OneName t) (fs : FileSystem) :
    fs.search detour (.scalar (.str t)) = .error (.access (.refused .nameTooLong detour)) := by
  have hrefused : fs.resolve detour = .error (.refused .nameTooLong detour) := by
    have hnull : detour.contains 0 = false := by decide +kernel
    have hlong : byteSize detour > pathLimit := by decide +kernel
    rw [resolve, hnull, if_neg Bool.false_ne_true, locate, if_neg (by decide), if_pos hlong]
    rfl
  refine search_of_error ht ?_
  rw [toText_detour, lookUp, place?, hrefused]
  rfl

/-- The path leads to a directory with a file in it, but it is too long to be taken. -/
theorem detour_refused :
    (Text.splitOn Path.separator detour).foldlM oneDirectory.step oneDirectory.workingDirectory =
      .ok [("d" : Text)] ∧
    oneDirectory.node? [("d" : Text)] = some .directory ∧
    oneDirectory.node? [("f.json" : Text), "d"] = some (.file [0x5B, 0x5D]) ∧
    oneDirectory.search detour (.scalar (.str jsonNames)) =
      .error (.access (.refused .nameTooLong detour)) :=
  ⟨by decide +kernel, rfl, rfl, search_detour oneName_jsonNames oneDirectory⟩

end FluentFixtures.Files.FileSystem

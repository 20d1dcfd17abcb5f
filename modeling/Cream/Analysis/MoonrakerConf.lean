import Mathlib.Data.List.ReduceOption
import Cream.Model.BaseMoonrakerService

/-!
# The generated moonraker.conf

What a service writes is read in two ways: Moonraker's reader takes the port option of
`[server]`, and the app looks for the first `port: ` with digits after it. On a generated file
both answer the port that was put in (`port_defaultConf`, `findPort_defaultConf`),
whatever the paths are, and the backup is not asked for.

The file is followed entry by entry. Moonraker's own loop leaves an entry as it is and puts it
into the buffer (`parseLine_render`), so what the library reads are the entries.

SOURCE: BaseMoonrakerService.kt:101-107, moonraker/default.conf, confighelper.py:963-1090,
server.py:655-679
-/

set_option autoImplicit false

namespace Cream.Analysis

open Cream.Library Cream.Model Text Ini ConfigParser FileSourceWrapper BaseMoonrakerService

/-! ## Entries in Moonraker's loop -/

/-- The characters of entries. -/
def isEntryChar (c : Char) : Bool := isValueChar c || c == '[' || c == ' '

variable {e : Entry} {c : Char} {l : Text}

/-- The characters of values may stand in an entry. -/
theorem isEntryChar_of_isValueChar (h : isValueChar c) : isEntryChar c := by
  unfold isEntryChar
  rw [h]
  rfl

/-- INTERNAL: what the characters of an entry are. -/
theorem isEntryChar_render (h : e.Plain) : ∀ c ∈ e.render, isEntryChar c := by
  have hvalue : ∀ {v : Text}, IsValue v → ∀ c ∈ v, isEntryChar c := fun hv c hc =>
    isEntryChar_of_isValueChar (hv c hc)
  cases e with
  | header name =>
    intro c hc
    rcases List.mem_cons.mp hc with rfl | hc
    · decide
    · rcases List.mem_append.mp hc with hc | hc
      · exact hvalue (IsName.isValue h) c hc
      · rw [List.mem_singleton.mp hc]
        decide
  | option name value =>
    intro c hc
    rcases List.mem_append.mp hc with hc | hc
    · exact hvalue h.1.isValue c hc
    · rcases List.mem_cons.mp hc with rfl | hc
      · decide
      · split at hc
        · cases hc
        · rcases List.mem_cons.mp hc with rfl | hc
          · decide
          · exact hvalue h.2 c hc
  | more value =>
    intro c hc
    rcases List.mem_append.mp hc with hc | hc
    · have hall : ∀ c ∈ "    ".toList, isEntryChar c :=
        List.all_eq_true.mp (by decide)
      exact hall c hc
    · exact hvalue h.2 c hc

/-- A line without comment characters is not cut. -/
theorem cutComment_of_notMem (h : '#' ∉ l ∧ ';' ∉ l) : cutComment l = l := by
  induction l with
  | nil => rfl
  | cons c s ih =>
    have hs : '#' ∉ s ∧ ';' ∉ s :=
      ⟨fun hm => h.1 (List.mem_cons_of_mem _ hm), fun hm => h.2 (List.mem_cons_of_mem _ hm)⟩
    have hhead : ((s.dropWhile (· = ' ')).head?.any fun c => c == '#' || c == ';') = false := by
      rw [Bool.eq_false_iff]
      intro hany
      obtain ⟨d, hd, hspecial⟩ := (Option.any_eq_true _ _).mp hany
      have hmem : d ∈ s := (List.dropWhile_suffix _).subset (List.mem_of_mem_head? hd)
      rw [Bool.or_eq_true, beq_iff_eq, beq_iff_eq] at hspecial
      rcases hspecial with rfl | rfl
      · exact hs.1 hmem
      · exact hs.2 hmem
    rw [cutComment, hhead, if_neg (by simp), ih hs]

/-- One without a backslash is not changed. -/
theorem unescape_of_notMem (h : '\\' ∉ l) : unescape l = l := by
  induction l using unescape.induct with
  | case1 s ih => exact absurd (by simp) h
  | case2 s ih => exact absurd (by simp) h
  | case3 c s h1 h2 ih =>
    rw [unescape, ih fun hm => h (List.mem_cons_of_mem _ hm)]
    · exact h1
    · exact h2
  | case4 => rfl

/-- INTERNAL: an entry has neither comments nor tabs nor line breaks. -/
theorem entry_line (h : e.Plain) :
    unescape (cutComment (expandtabs 4 0 e.render)) = e.render ∧
      ∀ c ∈ e.render, isLineBreak c = false ∧ c ≠ '\r' := by
  have hnot : ∀ d : Char, isEntryChar d = false → d ∉ e.render := fun d hd hmem => by
    rw [isEntryChar_render h d hmem] at hd
    cases hd
  constructor
  · rw [expandtabs_of_notMem (hnot _ (by decide)),
      cutComment_of_notMem ⟨hnot _ (by decide), hnot _ (by decide)⟩,
      unescape_of_notMem (hnot _ (by decide))]
  · intro c hc
    constructor
    · have hentry := isEntryChar_render h c hc
      unfold isEntryChar at hentry
      rw [Bool.or_eq_true, Bool.or_eq_true, beq_iff_eq, beq_iff_eq] at hentry
      rcases hentry with (hvalue | rfl) | rfl
      · exact not_isLineBreak hvalue
      · decide
      · decide
    · rintro rfl
      exact hnot _ (by decide) hc

/-- What an entry does in Moonraker's loop. -/
def parseEntry (p : Parsing) (e : Entry) : Option Parsing :=
  match e with
  | .header name =>
    if name ∈ p.sections then none
    else some
      { p with
        buffer := p.buffer ++ [e.render]
        lastSection := name
        optIndent := none
        sections := name :: p.sections }
  | .option name _ =>
    if (p.lastSection, name) ∈ p.options then none
    else some
      { p with
        buffer := p.buffer ++ [e.render]
        optIndent := some 0
        options := (p.lastSection, name) :: p.options }
  | .more _ => if p.optIndent = some 0 then some { p with buffer := p.buffer ++ [e.render] } else none

/-- **Moonraker's loop keeps an entry** as it is. -/
theorem parseLine_render {d : Dialect} {parseIncluded : Source → Text → Option Source}
    {p q : Parsing} (h : e.Plain) (hindent : ∀ n ∈ p.optIndent, n = 0)
    (hq : parseEntry p e = some q) :
    parseLine d parseIncluded p e.render = some q ∧ ∀ n ∈ q.optIndent, n = 0 := by
  obtain ⟨hcomment, hstrip⟩ := isComment_render h
  have hline : unescape (cutComment (expandtabs 4 0 e.render)) = e.render := (entry_line h).1
  unfold parseLine
  rw [if_neg (by simp [hcomment, hstrip])]
  simp only [hline]
  cases e with
  | header name =>
    have hsolid := solid_header h
    have hflat : ¬∃ n ∈ p.optIndent, n < indentOf (Entry.header name).render := by
      rintro ⟨n, -, hlt⟩
      rw [indentOf_of_solid hsolid] at hlt
      exact Nat.not_lt_zero _ hlt
    have hname : sectionName (Entry.header name).render = some name := by
      have hleft : lstrip (Entry.header name).render = '[' :: (name ++ [']']) :=
        List.dropWhile_cons_of_neg (by decide)
      unfold sectionName
      rw [hleft]
      simp only [takeWhile_header h]
      rw [if_pos ⟨by simp, IsName.ne_nil h⟩]
    have hinclude : ¬"include ".toList <+: name := fun hbegin =>
      absurd (IsName.chars h ' ' (hbegin.subset (by decide))) (by decide)
    rw [if_neg hflat, hname]
    simp only [if_neg hinclude]
    simp only [parseEntry] at hq
    split at hq
    · cases hq
    · next hnew =>
      rw [if_neg hnew]
      cases hq
      exact ⟨rfl, fun n hn => nomatch hn⟩
  | option name value =>
    have hsolid := solid_option h.1 h.2
    have hzero := indentOf_of_solid hsolid
    have hflat : ¬∃ n ∈ p.optIndent, n < indentOf (Entry.option name value).render := by
      rintro ⟨n, -, hlt⟩
      rw [hzero] at hlt
      exact Nat.not_lt_zero _ hlt
    have hname : sectionName (Entry.option name value).render = none := by
      have hbracket := head_option_ne (d := '[') h.1 rfl hsolid.ne_nil
      have hspace := hsolid.head
      obtain ⟨c, s, hs⟩ := List.exists_cons_of_ne_nil hsolid.ne_nil
      simp only [hs, List.head_cons] at hbracket hspace
      have hleft : lstrip (Entry.option name value).render = c :: s := by
        rw [hs]
        exact List.dropWhile_cons_of_neg (by simp [hspace])
      unfold sectionName
      rw [hleft]
      split
      · next heq =>
        cases heq
        exact absurd rfl hbracket
      · rfl
    rw [if_neg hflat, hname]
    simp only [takeWhile_option h.1, h.1.solid.strip, hzero]
    simp only [parseEntry] at hq
    split at hq
    · cases hq
    · next hnew =>
      rw [if_neg hnew]
      cases hq
      refine ⟨rfl, fun n hn => ?_⟩
      cases hn
      rfl
  | more value =>
    simp only [parseEntry] at hq
    split at hq
    · next hopt =>
      cases hq
      have hdeep : ∃ n ∈ p.optIndent, n < indentOf (Entry.more value).render := by
        refine ⟨0, hopt, ?_⟩
        rw [indentOf_more h.2 h.1]
        decide
      rw [if_pos hdeep]
      exact ⟨rfl, hindent⟩
    · cases hq

/-! ## Files of entries -/

/-- A file of entries and empty lines. -/
def renderFile (es : List (Option Entry)) : Text :=
  (es.map fun e => (e.map Entry.render).getD []).flatMap (· ++ ['\n'])

/-- INTERNAL: the lines of a file of entries. -/
theorem splitlines_renderFile {es : List (Option Entry)} (h : ∀ e ∈ es, ∀ e' ∈ e, e'.Plain) :
    splitlines (universalNewlines (renderFile es)) =
      es.map fun e => (e.map Entry.render).getD [] := by
  have hline : ∀ l ∈ es.map (fun e => (e.map Entry.render).getD []),
      ∀ c ∈ l, isLineBreak c = false ∧ c ≠ '\r' := by
    intro l hl
    obtain ⟨e, he, rfl⟩ := List.mem_map.mp hl
    cases e with
    | none => exact fun c hc => nomatch hc
    | some e => exact (entry_line (h _ he e rfl)).2
  have hreturn : '\r' ∉ renderFile es := by
    intro hmem
    obtain ⟨l, hl, hc⟩ := List.mem_flatMap.mp hmem
    rcases List.mem_append.mp hc with hc | hc
    · exact (hline l hl _ hc).2 rfl
    · exact absurd (List.mem_singleton.mp hc) (by decide)
  have hread : ∀ t : Text, '\r' ∉ t → universalNewlines t = t := by
    intro t ht
    induction t with
    | nil => rfl
    | cons c t ih =>
      rw [universalNewlines_cons fun hc => ht (hc ▸ List.mem_cons_self),
        ih fun hm => ht (List.mem_cons_of_mem _ hm)]
  rw [hread _ hreturn]
  exact splitlines_flatMap fun l hl c hc => (hline l hl c hc).1

/-- INTERNAL: the loop over a file of entries. -/
theorem parseLines_renderFile {d : Dialect} {parseIncluded : Source → Text → Option Source}
    {es : List (Option Entry)} (h : ∀ e ∈ es, ∀ e' ∈ e, e'.Plain) {p q : Parsing}
    (hindent : ∀ n ∈ p.optIndent, n = 0) (hq : es.reduceOption.foldlM parseEntry p = some q) :
    (es.map fun e => (e.map Entry.render).getD []).foldlM (parseLine d parseIncluded) p = some q := by
  induction es generalizing p with
  | nil => exact hq
  | cons e es ih =>
    have hrest : ∀ e ∈ es, ∀ e' ∈ e, e'.Plain := fun e he => h e (List.mem_cons_of_mem _ he)
    rw [List.map_cons, List.foldlM_cons]
    cases e with
    | none =>
      have hblank : parseLine d parseIncluded p [] = some p := rfl
      rw [Option.map_none, Option.getD_none, hblank]
      exact ih hrest hindent hq
    | some e =>
      rw [List.reduceOption_cons_of_some, List.foldlM_cons] at hq
      obtain ⟨p', hp', hq⟩ := Option.bind_eq_some_iff.mp hq
      obtain ⟨hparse, hindent'⟩ := parseLine_render (d := d) (h _ List.mem_cons_self e rfl) hindent hp'
      rw [Option.map_some, Option.getD_some, hparse]
      exact ih hrest hindent' hq

/-- INTERNAL: the loop only fills the buffer. -/
theorem parseEntries_buffer {es : List Entry} {p q : Parsing} (hq : es.foldlM parseEntry p = some q) :
    q.buffer = p.buffer ++ es.map Entry.render ∧ q.source = p.source := by
  induction es generalizing p with
  | nil =>
    cases hq
    exact ⟨(List.append_nil _).symm, rfl⟩
  | cons e es ih =>
    rw [List.foldlM_cons] at hq
    obtain ⟨p', hp', hq⟩ := Option.bind_eq_some_iff.mp hq
    have hstep : p'.buffer = p.buffer ++ [e.render] ∧ p'.source = p.source := by
      cases e with
      | header name =>
        simp only [parseEntry] at hp'
        split at hp'
        · cases hp'
        · cases hp'
          exact ⟨rfl, rfl⟩
      | option name value =>
        simp only [parseEntry] at hp'
        split at hp'
        · cases hp'
        · cases hp'
          exact ⟨rfl, rfl⟩
      | more value =>
        simp only [parseEntry] at hp'
        split at hp'
        · cases hp'
          exact ⟨rfl, rfl⟩
        · cases hp'
    obtain ⟨hbuffer, hsource⟩ := ih hq
    refine ⟨?_, hsource.trans hstep.2⟩
    rw [hbuffer, hstep.1, List.map_cons, List.append_assoc, List.singleton_append]

/-- Where the loop over a file starts. -/
def Parsing.start (source : Source) : Parsing where
  source := source
  buffer := []
  lastSection := []
  optIndent := none
  sections := []
  options := []

/-- **A file of entries** is accepted when nothing comes twice, and the configuration is what
its entries make. -/
theorem getConfiguration_renderFile (d : Dialect) (disk : Disk) {es : List (Option Entry)}
    (h : ∀ e ∈ es, ∀ e' ∈ e, e'.Plain)
    (hparse : (es.reduceOption.foldlM parseEntry (Parsing.start ⟨.empty, [.main]⟩)).isSome)
    {r : ConfigParser.Reader} (hread : es.reduceOption.foldlM Entry.read (.start .empty) = some r)
    (hfailed : r.failed = false) (hserver : (r.config "server".toList).isSome) :
    getConfiguration d disk (renderFile es) .main = some r.config := by
  obtain ⟨q, hq⟩ := Option.isSome_iff_exists.mp hparse
  obtain ⟨hbuffer, hsource⟩ := parseEntries_buffer hq
  have hne : es.reduceOption ≠ [] := by
    intro hnil
    rw [hnil] at hread
    cases hread
    cases hserver
  have hplain : ∀ e ∈ es.reduceOption, e.Plain := fun e he =>
    h (some e) (List.reduceOption_mem_iff.mp he) e rfl
  have hwrite : writeBuffer d q.source.config q.buffer = some r.config := by
    have hlines : ConfigParser.readLines d (.start .empty) (es.reduceOption.map Entry.render) =
        some r := readLines_render hplain rfl hread
    have hmap : es.reduceOption.map Entry.render ≠ [] := by simpa using hne
    have hqbuffer : q.buffer = es.reduceOption.map Entry.render := hbuffer
    unfold writeBuffer ConfigParser.read
    rw [hqbuffer, hsource, if_neg hmap]
    show (ConfigParser.readLines d (.start .empty) _).bind _ = _
    rw [hlines, Option.bind_some, Ini.Reader.finish, hfailed]
    rfl
  have hloop : (es.map fun e => (e.map Entry.render).getD []).foldlM
      (parseLine d fun source path =>
        if disk.glob .main path = [] then none
        else (disk.glob .main path).foldlM
          (parseFile d disk (renderFile es) (disk.files.length + 1)) source)
        (Parsing.start ⟨.empty, [.main]⟩) = some q :=
    parseLines_renderFile h (fun _ hn => nomatch hn) hq
  have hfile : parseFile d disk (renderFile es) (disk.files.length + 2) ⟨.empty, []⟩ .main =
      some { q.source with config := r.config } := by
    unfold parseFile
    simp only [Parsing.start] at hloop
    simp only [List.not_mem_nil, if_false, Disk.text, Option.bind_eq_bind, Option.bind_some,
      splitlines_renderFile h, List.nil_append, hloop, hwrite]
  unfold getConfiguration
  rw [hfile]
  show (if (r.config "server".toList).isSome then some r.config else none) = _
  rw [if_pos hserver]

/-! ## What a service writes -/

/-- The entries before the port, and those between the paths. -/
def serverEntries : List (Option Entry) :=
  [some (.header "server".toList), some (.option "host".toList "0.0.0.0".toList)]

def otherEntries : List (Option Entry) :=
  [some (.option "max_upload_size".toList "1024".toList), none,
    some (.header "machine".toList), some (.option "provider".toList "none".toList), none,
    some (.header "authorization".toList), some (.option "cors_domains".toList []),
    some (.more "*://my.mainsail.xyz".toList), some (.more "*://app.fluidd.xyz".toList),
    some (.more "*://*.beam-remote.ru".toList), some (.more "*://*.local".toList),
    some (.more "*://*.lan".toList), some (.option "trusted_clients".toList []),
    some (.more "10.0.0.0/8".toList), some (.more "127.0.0.0/8".toList),
    some (.more "169.254.0.0/16".toList), some (.more "172.16.0.0/12".toList),
    some (.more "192.168.0.0/16".toList), some (.more "FE80::/10".toList),
    some (.more "::1/128".toList), none, some (.header "octoprint_compat".toList), none,
    some (.header "history".toList), none, some (.header "database".toList), none,
    some (.header "timelapse".toList)]

/-- The file as entries. -/
def document (port socket output frames : Text) : List (Option Entry) :=
  serverEntries ++
    [some (.option "port".toList port), some (.option "klippy_uds_address".toList socket)] ++
    otherEntries ++
    [some (.option "output_path".toList output), some (.option "frame_path".toList frames)]

/-- The file with its holes filled. -/
def template (port socket output frames : Text) : Text :=
  renderFile serverEntries ++ ("port: ".toList ++ (port ++ ("\nklippy_uds_address: ".toList ++
    (socket ++ ("\n".toList ++ (renderFile otherEntries ++ ("output_path: ".toList ++
      (output ++ ("\nframe_path: ".toList ++ (frames ++ "\n".toList))))))))))

/-- The text of the service is the template with its names in place. -/
theorem DEFAULT_CONF_eq : DEFAULT_CONF =
    template "${MOONRAKER_PORT}".toList "${KLIPPY_UDS}".toList "${TIMELAPSE_OUTPUT}".toList
      "${TIMELAPSE_FRAME_PATH}".toList := by
  unfold DEFAULT_CONF
  rw [String.toList_append, String.toList_append, String.toList_append, String.toList_append,
    String.toList_append, String.toList_append]
  decide +kernel

variable {port socket output frames : Text}

/-- Entries behind each other are lines behind each other. -/
theorem renderFile_append (es es' : List (Option Entry)) :
    renderFile (es ++ es') = renderFile es ++ renderFile es' := by
  unfold renderFile
  rw [List.map_append, List.flatMap_append]

/-- An option is a line. -/
theorem renderFile_option {name value : Text} (h : value ≠ []) (es : List (Option Entry)) :
    renderFile (some (.option name value) :: es) =
      name ++ (": ".toList ++ (value ++ ("\n".toList ++ renderFile es))) := by
  simp [renderFile, Entry.render, h]

/-- **The document is the template**, filled in. -/
theorem renderFile_document (hport : port ≠ []) (hsocket : socket ≠ []) (houtput : output ≠ [])
    (hframes : frames ≠ []) :
    renderFile (document port socket output frames) = template port socket output frames := by
  have hnil : renderFile [] = [] := rfl
  unfold document template
  simp only [renderFile_append, renderFile_option hport, renderFile_option hsocket,
    renderFile_option houtput, renderFile_option hframes, hnil, List.append_assoc, List.append_nil]
  rfl

/-- Replacing passes over a text. -/
def Passes (p x : Text) : Prop := ∀ new s, replace (x ++ s) p new = x ++ replace s p new

/-- What holds no dollar sign is passed over when a name is replaced. -/
theorem passes_of_notMem {p x : Text} (h : '$' ∉ x) : Passes ('$' :: p) x :=
  fun _ _ => replace_append h

/-- Replacing passes over another placeholder. -/
theorem passes_placeholder {p x : Text} (hx : '$' ∉ x) (hp : ¬p <+: x) (hx' : ¬x <+: p) :
    Passes ('$' :: p) ('$' :: x) := by
  intro new s
  have hnot : ¬ '$' :: p <+: '$' :: (x ++ s) := by
    intro hbegin
    obtain ⟨-, hbegin⟩ := List.cons_prefix_cons.mp hbegin
    rcases List.prefix_or_prefix_of_prefix hbegin (List.prefix_append x s) with h | h
    · exact hp h
    · exact hx' h
  show replace ('$' :: (x ++ s)) ('$' :: p) new = '$' :: (x ++ replace s ('$' :: p) new)
  rw [replace_cons hnot, replace_append hx]

/-- **A replacement fills the holes** that hold its placeholder. -/
theorem replace_template {p n a b c d : Text}
    (h : ∀ x ∈ [a, b, c, d], x = '$' :: p ∨ Passes ('$' :: p) x) :
    replace (template a b c d) ('$' :: p) n =
      template (if a = '$' :: p then n else a) (if b = '$' :: p then n else b)
        (if c = '$' :: p then n else c) (if d = '$' :: p then n else d) := by
  have hole : ∀ x ∈ [a, b, c, d], ∀ s, replace (x ++ s) ('$' :: p) n =
      (if x = '$' :: p then n else x) ++ replace s ('$' :: p) n := by
    intro x hx s
    by_cases heq : x = '$' :: p
    · rw [if_pos heq, heq, replace_occurrence]
    · rw [if_neg heq]
      exact (h x hx).resolve_left heq n s
  have hfixed : ∀ x : Text, '$' ∉ x → ∀ s, replace (x ++ s) ('$' :: p) n =
      x ++ replace s ('$' :: p) n := fun x hx s => passes_of_notMem hx n s
  unfold template
  rw [hfixed _ (by decide +kernel), hfixed "port: ".toList (by decide), hole a (by simp),
    hfixed _ (by decide), hole b (by simp), hfixed _ (by decide), hfixed _ (by decide +kernel),
    hfixed "output_path: ".toList (by decide), hole c (by simp), hfixed _ (by decide),
    hole d (by simp), replace_of_notMem (a := "\n".toList) (by decide)]

section
variable (dev : Device) (i : InstanceId)

/-- The directory of an instance may be a value. -/
theorem isValue_directory : IsValue (dev.directory i) := by
  intro c hc
  unfold Device.directory at hc
  rcases List.mem_append.mp hc with hc | hc
  · rcases List.mem_append.mp hc with hc | hc
    · exact dev.isValue_filesDir c hc
    · have hall : IsValue "/instance/".toList := by decide
      exact hall c hc
  · rcases i.chars c hc with hdigit | hlower | rfl
    · exact isValueChar_of_isDigit hdigit
    · exact isValueChar_of_isNameChar (by unfold isNameChar; rw [hlower]; rfl)
    · decide

/-- A path below a directory. -/
theorem isValue_below {dir name : Text} (h : IsValue dir) (hname : IsValue name) :
    IsValue (dir ++ name) := fun c hc => (List.mem_append.mp hc).elim (h c) (hname c)

/-- INTERNAL: the paths that are put in. -/
def socketPath : Text := dev.directory i ++ "/klippy_uds".toList
def framesPath : Text := dev.directory i ++ "/timelapse_frames".toList
def outputPath : Text := dev.publicDirectory i ++ "/timelapses".toList

/-- So may the paths in it. -/
theorem isValue_paths : IsValue (socketPath dev i) ∧ IsValue (framesPath dev i) ∧
    IsValue (outputPath dev i) := by
  have hdir := isValue_directory dev i
  have hpublic : IsValue (dev.publicDirectory i) := isValue_below hdir (by decide)
  exact ⟨isValue_below hdir (by decide), isValue_below hdir (by decide),
    isValue_below hpublic (by decide)⟩

/-- The placeholders, without their dollars. -/
def portHole : Text := "{MOONRAKER_PORT}".toList
def socketHole : Text := "{KLIPPY_UDS}".toList
def outputHole : Text := "{TIMELAPSE_OUTPUT}".toList
def framesHole : Text := "{TIMELAPSE_FRAME_PATH}".toList

/-- INTERNAL: no placeholder starts another one. -/
theorem holes_apart : ∀ p ∈ [portHole, socketHole, outputHole, framesHole],
    ∀ x ∈ [portHole, socketHole, outputHole, framesHole], p ≠ x →
      '$' ∉ x ∧ ¬p <+: x ∧ ¬x <+: p := by decide +kernel

/-- **What a service writes** is the template with its holes filled. -/
theorem defaultConf_eq (p : Nat) : defaultConf dev i p =
    template (toString p).toList (socketPath dev i) (outputPath dev i) (framesPath dev i) := by
  obtain ⟨hsocket, hframes, houtput⟩ := isValue_paths dev i
  have hport : '$' ∉ (toString p).toList := by
    intro hmem
    have htoDigits : (toString p).toList = Nat.toDigits 10 p := Nat.toList_repr
    rw [htoDigits] at hmem
    exact absurd (isDigit_of_mem_toDigits hmem) (by decide)
  have hne : ∀ {x q : Text}, '$' ∉ x → x ≠ '$' :: q := by
    rintro x q hx rfl
    exact hx List.mem_cons_self
  have hother : ∀ q ∈ [portHole, socketHole, outputHole, framesHole],
      ∀ x ∈ [portHole, socketHole, outputHole, framesHole],
        '$' :: x = '$' :: q ∨ Passes ('$' :: q) ('$' :: x) := by
    intro q hq x hx
    by_cases heq : q = x
    · exact .inl (by rw [heq])
    · obtain ⟨h1, h2, h3⟩ := holes_apart q hq x hx heq
      exact .inr (passes_placeholder h1 h2 h3)
  have hfilled : ∀ {q x : Text}, '$' ∉ x → x = '$' :: q ∨ Passes ('$' :: q) x :=
    fun hx => .inr (passes_of_notMem hx)
  -- one placeholder after the other
  have h1 := replace_template (p := socketHole) (n := socketPath dev i)
    (a := '$' :: portHole) (b := '$' :: socketHole) (c := '$' :: outputHole)
    (d := '$' :: framesHole) fun x hx => by
      simp only [List.mem_cons, List.not_mem_nil, or_false] at hx
      rcases hx with rfl | rfl | rfl | rfl <;> exact hother _ (by simp) _ (by simp)
  have h2 := replace_template (p := portHole) (n := (toString p).toList)
    (a := '$' :: portHole) (b := socketPath dev i) (c := '$' :: outputHole)
    (d := '$' :: framesHole) fun x hx => by
      simp only [List.mem_cons, List.not_mem_nil, or_false] at hx
      rcases hx with rfl | rfl | rfl | rfl
      · exact hother _ (by simp) _ (by simp)
      · exact hfilled hsocket.notMem
      · exact hother _ (by simp) _ (by simp)
      · exact hother _ (by simp) _ (by simp)
  have h3 := replace_template (p := framesHole) (n := framesPath dev i)
    (a := (toString p).toList) (b := socketPath dev i) (c := '$' :: outputHole)
    (d := '$' :: framesHole) fun x hx => by
      simp only [List.mem_cons, List.not_mem_nil, or_false] at hx
      rcases hx with rfl | rfl | rfl | rfl
      · exact hfilled hport
      · exact hfilled hsocket.notMem
      · exact hother _ (by simp) _ (by simp)
      · exact hother _ (by simp) _ (by simp)
  have h4 := replace_template (p := outputHole) (n := outputPath dev i)
    (a := (toString p).toList) (b := socketPath dev i) (c := '$' :: outputHole)
    (d := framesPath dev i) fun x hx => by
      simp only [List.mem_cons, List.not_mem_nil, or_false] at hx
      rcases hx with rfl | rfl | rfl | rfl
      · exact hfilled hport
      · exact hfilled hsocket.notMem
      · exact hother _ (by simp) _ (by simp)
      · exact hfilled hframes.notMem
  rw [if_neg (by decide), if_pos rfl, if_neg (by decide), if_neg (by decide)] at h1
  rw [if_pos rfl, if_neg (hne hsocket.notMem), if_neg (by decide), if_neg (by decide)] at h2
  rw [if_neg (hne hport), if_neg (hne hsocket.notMem), if_neg (by decide), if_pos rfl] at h3
  rw [if_neg (hne hport), if_neg (hne hsocket.notMem), if_pos rfl, if_neg (hne hframes.notMem)] at h4
  unfold defaultConf
  rw [DEFAULT_CONF_eq]
  show ((((template ('$' :: portHole) ('$' :: socketHole) ('$' :: outputHole)
    ('$' :: framesHole)).replace ('$' :: socketHole) (socketPath dev i)).replace
      ('$' :: portHole) (toString p).toList).replace ('$' :: framesHole) (framesPath dev i)).replace
        ('$' :: outputHole) (outputPath dev i) = _
  rw [h1, h2, h3, h4]

/-- **The app finds the port** of a generated file. -/
theorem findPort_defaultConf (dg : Digits) {p : Nat} (hp : p ≤ MAX_VALUE) :
    findPort dg (defaultConf dev i p) = some p := by
  have htoDigits : (toString p).toList = Nat.toDigits 10 p := Nat.toList_repr
  have hdigits : ∀ c ∈ Nat.toDigits 10 p, (dg.value c).isSome := fun c hc => by
    rw [dg.value_of_isDigit (isDigit_of_mem_toDigits hc)]
    rfl
  have hbreak : (dg.value '\n').isSome = false := by
    rw [dg.ascii '\n' (by decide)]
    rfl
  rw [defaultConf_eq, htoDigits]
  unfold template
  generalize socketPath dev i ++ _ = rest
  have hmatch : Pattern.matchAt (MOONRAKER_PORT_PATTERN dg) ("port: ".toList ++
      (Nat.toDigits 10 p ++ ("\nklippy_uds_address: ".toList ++ rest))) =
        some ([Nat.toDigits 10 p], "\nklippy_uds_address: ".toList ++ rest) := by
    have hdrop : ∀ s : Text, ("port: ".toList ++ s).dropPrefix? "port: ".toList = some s := fun s => by
      simp [List.dropPrefix?]
    have hrun : Pattern.run (fun c => (dg.value c).isSome) (Pattern.matchAt [])
        (Nat.toDigits 10 p ++ ("\nklippy_uds_address: ".toList ++ rest)) =
          some (Nat.toDigits 10 p, [], "\nklippy_uds_address: ".toList ++ rest) :=
      Pattern.run_append Nat.toDigits_ne_nil hdigits (fun c hc => by cases hc; exact hbreak) rfl
    unfold MOONRAKER_PORT_PATTERN
    rw [Pattern.matchAt, hdrop, Option.bind_some, Pattern.matchAt, hrun]
    rfl
  have hfind : (MOONRAKER_PORT_PATTERN dg).find (renderFile serverEntries ++ ("port: ".toList ++
      (Nat.toDigits 10 p ++ ("\nklippy_uds_address: ".toList ++ rest)))) =
        some (renderFile serverEntries, [Nat.toDigits 10 p],
          "\nklippy_uds_address: ".toList ++ rest) := by
    have hskip := @Pattern.find_append 'p' "ort: ".toList (renderFile serverEntries)
      ("port: ".toList ++ (Nat.toDigits 10 p ++ ("\nklippy_uds_address: ".toList ++ rest)))
      [.group fun c => (dg.value c).isSome] (by decide +kernel)
    have hfound := Pattern.find_of_matchAt hmatch
    refine hskip.trans ?_
    show Option.map _ ((MOONRAKER_PORT_PATTERN dg).find _) = _
    rw [hfound, Option.map_some]
    simp only [List.append_nil]
  unfold findPort
  rw [hfind]
  simp only [Option.bind_eq_bind, Option.bind_some, List.head?_cons, dg.decimal_toDigits, if_pos hp]

end

/-! ## The port Moonraker reads -/

/-- INTERNAL: the entries are names and values. -/
theorem plain_document (hport : IsValue port) (hsocket : IsValue socket) (houtput : IsValue output)
    (hframes : IsValue frames) :
    ∀ e ∈ document port socket output frames, ∀ e' ∈ e, e'.Plain := by
  have hname : ∀ n ∈ ["port".toList, "klippy_uds_address".toList, "output_path".toList,
      "frame_path".toList], IsName n := by decide
  have hfixed : ∀ e ∈ serverEntries ++ otherEntries, ∀ e' ∈ e, e'.Plain := by decide +kernel
  intro e he e' he'
  unfold document at he
  simp only [List.mem_append, List.mem_cons, List.not_mem_nil, or_false] at he
  rcases he with ((he | rfl | rfl) | he) | rfl | rfl
  · exact hfixed e (List.mem_append_left _ he) e' he'
  · cases he'
    exact ⟨hname _ (by simp), hport⟩
  · cases he'
    exact ⟨hname _ (by simp), hsocket⟩
  · exact hfixed e (List.mem_append_right _ he) e' he'
  · cases he'
    exact ⟨hname _ (by simp), houtput⟩
  · cases he'
    exact ⟨hname _ (by simp), hframes⟩

/-- Two rounds of the loop in the same place. -/
def SamePlace (p p' : Parsing) : Prop :=
  p.lastSection = p'.lastSection ∧ p.optIndent = p'.optIndent ∧
    p.sections = p'.sections ∧ p.options = p'.options

/-- INTERNAL: Moonraker's loop does not ask for values. -/
theorem parseEntry_unvalued {p p' q' : Parsing} (hp : SamePlace p p')
    (hq' : parseEntry p' e.unvalued = some q') : ∃ q, parseEntry p e = some q ∧ SamePlace q q' := by
  obtain ⟨h1, h2, h3, h4⟩ := hp
  cases e with
  | header name =>
    simp only [Entry.unvalued, parseEntry] at hq' ⊢
    rw [h3]
    split at hq'
    · cases hq'
    · next hnew =>
      cases hq'
      exact ⟨_, if_neg hnew, rfl, rfl, rfl, h4⟩
  | option name value =>
    simp only [Entry.unvalued, parseEntry] at hq' ⊢
    rw [h1, h4]
    split at hq'
    · cases hq'
    · next hnew =>
      cases hq'
      exact ⟨_, if_neg hnew, rfl, rfl, h3, rfl⟩
  | more value =>
    simp only [Entry.unvalued, parseEntry] at hq' ⊢
    rw [h2]
    split at hq'
    · next hopt =>
      cases hq'
      exact ⟨_, if_pos hopt, h1, rfl, h3, h4⟩
    · cases hq'

/-- Entries are accepted when they are without their values. -/
theorem parseEntries_isSome {es : List Entry} {p p' : Parsing} (hp : SamePlace p p')
    (h : ((es.map Entry.unvalued).foldlM parseEntry p').isSome) :
    (es.foldlM parseEntry p).isSome := by
  induction es generalizing p p' with
  | nil => rfl
  | cons e es ih =>
    rw [List.map_cons, List.foldlM_cons] at h
    cases hread : parseEntry p' e.unvalued with
    | none =>
      rw [hread] at h
      cases h
    | some q' =>
      rw [hread] at h
      obtain ⟨q, hq, hsame⟩ := parseEntry_unvalued hp hread
      rw [List.foldlM_cons, hq]
      exact ih hsame h

section
variable (dev : Device) (i : InstanceId)

/-- **Moonraker reads the port** of a generated file. -/
theorem port_defaultConf (d : Dialect) (dg : Digits) (disk : Disk) {p : Nat} (hp : p ≤ MAX_VALUE) :
    ∃ config, getConfiguration d disk (defaultConf dev i p) .main = some config ∧
      Server.port dg config = some (p : Int) := by
  have htoDigits : (toString p).toList = Nat.toDigits 10 p := Nat.toList_repr
  obtain ⟨hsocket, hframes, houtput⟩ := isValue_paths dev i
  have hport : IsValue (Nat.toDigits 10 p) := fun c hc =>
    isValueChar_of_isDigit (isDigit_of_mem_toDigits hc)
  have hne : ∀ {dir name : Text}, name ≠ [] → dir ++ name ≠ [] := fun h => by simp [h]
  have hplain := plain_document hport hsocket houtput hframes
  have hrender : renderFile (document (Nat.toDigits 10 p) (socketPath dev i) (outputPath dev i)
      (framesPath dev i)) = template (Nat.toDigits 10 p) (socketPath dev i) (outputPath dev i)
        (framesPath dev i) :=
    renderFile_document Nat.toDigits_ne_nil (hne (by decide)) (hne (by decide)) (hne (by decide))
  set es := document (Nat.toDigits 10 p) (socketPath dev i) (outputPath dev i) (framesPath dev i)
    with hes
  have hunvalued : es.reduceOption.map Entry.unvalued =
      (document [] [] [] []).reduceOption.map Entry.unvalued := rfl
  have hparse : (es.reduceOption.foldlM parseEntry (Parsing.start ⟨.empty, [.main]⟩)).isSome := by
    refine parseEntries_isSome ⟨rfl, rfl, rfl, rfl⟩ ?_
    rw [hunvalued]
    decide +kernel
  have hreads : (es.reduceOption.foldlM Entry.read (.start .empty)).isSome := by
    refine foldlM_read_isSome ⟨rfl, rfl⟩ ?_
    rw [hunvalued]
    decide +kernel
  obtain ⟨q, hq⟩ := Option.isSome_iff_exists.mp hreads
  -- the value stays where the fourth entry left it
  obtain ⟨first, rest, hsplit, r, hr, hsettled⟩ : ∃ first rest, es.reduceOption = first ++ rest ∧
      ∃ r, first.foldlM Entry.read (.start .empty) = some r ∧
        Settled r "server".toList "port".toList [Nat.toDigits 10 p] := by
    refine ⟨[.header "server".toList, .option "host".toList "0.0.0.0".toList,
      .option "port".toList (Nat.toDigits 10 p),
      .option "klippy_uds_address".toList (socketPath dev i)], _, rfl, _, rfl, ?_⟩
    exact ⟨rfl, List.mem_cons_of_mem _ List.mem_cons_self,
      fun hat => absurd (Option.some.inj hat.2) (by decide)⟩
  have hq' := hq
  rw [hsplit, List.foldlM_append, hr] at hq'
  have hport' := (hsettled.foldlM_read hq').linesOf
  have hserver : (q.config "server".toList).isSome := by
    unfold Config.linesOf at hport'
    obtain ⟨opts, hopts, -⟩ := Option.bind_eq_some_iff.mp hport'
    rw [hopts]
    rfl
  have hconf : getConfiguration d disk (defaultConf dev i p) .main = some q.config := by
    rw [defaultConf_eq, htoDigits, ← hrender]
    exact getConfiguration_renderFile d disk hplain hparse hq (foldlM_read_failed hq) hserver
  have hvalue : q.config.value "server".toList "port".toList = some (Nat.toDigits 10 p) := by
    have hsolid := hport.solid Nat.toDigits_ne_nil
    have hright : rstrip (Nat.toDigits 10 p) = Nat.toDigits 10 p :=
      List.rdropWhile_eq_self_iff.mpr fun hne => by simpa using hsolid.last
    have hline : unlines [Nat.toDigits 10 p] = Nat.toDigits 10 p := by simp [unlines]
    unfold Config.value
    rw [hport', Option.map_some, hline, hright]
  have hget : ConfigFile.get q.config "server".toList "port".toList = some (Nat.toDigits 10 p) := by
    obtain ⟨opts, hopts⟩ := Option.isSome_iff_exists.mp hserver
    unfold ConfigFile.get
    rw [hvalue, hopts]
    rfl
  refine ⟨q.config, hconf, ?_⟩
  unfold Server.port
  simp only [hget]
  exact dg.int_toDigits (hp.trans_lt (by decide))

/-- **Moonraker listens on the port** of a generated file: it runs from this file. -/
theorem main_defaultConf (hloads : LoadsDefault dev) (dg : Digits) {p : Nat} (hp : p ≤ MAX_VALUE) :
    Server.main dev.dialect dg (dev.loads i) (dev.disk i) (defaultConf dev i p) =
      some (p : Int) := by
  obtain ⟨config, hconf, hport⟩ := port_defaultConf dev i dev.dialect dg (dev.disk i) hp
  have hbuild : Server.build dev.dialect dg (dev.loads i) (dev.disk i) (defaultConf dev i p) .main =
      .built p := by
    unfold Server.build
    simp only [hconf, hport, hloads i p config hconf]
  unfold Server.main
  rw [hbuild]

end

/-- A file that names a section twice is refused, and the backup is asked. -/
example : Server.main { lower := List.map Char.toLower, lower_ascii := fun _ _ => rfl
                        toLastBracket := false } asciiDigits (fun _ => .loaded)
    { backup := some "[server]\nport = 7130\n".toList, files := [], glob := fun _ _ => [] }
    "[server]\nport: 7131\n[server]\n".toList = some 7130 := by
  decide +kernel

end Cream.Analysis

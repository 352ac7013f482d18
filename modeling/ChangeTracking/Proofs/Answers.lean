import ChangeTracking.Proofs.ExactScans
import ChangeTracking.Proofs.OfflineQueries
import ChangeTracking.Proofs.Startup

/-!
# Commands are never silently wrong about the map

A listing without entries tells a backup tool that no block changed, so no failure may look like one.
`PagemapRequest.Answered` has a constructor for each thing that can be the matter with a request, in
the order in which its arguments and then the map are looked at, and one for the case that nothing is
the matter.  Every answer is of that kind (`answered_run`), and what is said of answers here is read
off it.  A constructor says that all that was looked at before is in order, so they exclude each
other.  Whether there is a listing depends on the arguments and on the map's file alone
(`listed_iff`), and nothing at all is printed only if no block changed (`unchanged_of_silent`).

Requests are made in words, and each that has no empty path can be (`read_words`).
-/

namespace ChangeTracking

namespace MapFile

variable {t : Tree} {p : Path} {m : ChangeMap}

/-- A path leads to a file whose contents are the image of a map. -/
def Holds (t : Tree) (p : Path) (m : ChangeMap) : Prop :=
  ∃ contents, t.contentsAt p = .ok contents ∧ ChangeMap.ofImage contents.toBytes = .ok m

lemma load_eq_ok_some_iff : load t p = .ok (some m) ↔ Holds t p m := by
  constructor
  · intro h
    unfold load at h
    split at h
    · cases h
    · cases h
    · next contents hcontents =>
      split at h
      · next found hfound =>
        obtain rfl := Option.some.inj (Except.ok.inj h)
        exact ⟨contents, hcontents, ofContents_eq_ok_iff.mp hfound⟩
      · cases h
  · rintro ⟨contents, hcontents, hm⟩
    exact load_eq_ok_some hcontents hm

end MapFile

/-- Where nothing is reported, nothing changed. -/
lemma Reported.unchanged {m : ChangeMap} {baseline : Lsn} {files : List Segment}
    (h : Reported m baseline files []) : ∀ f ∈ files, ∀ n, ¬ m.Qualifies baseline f n := by
  induction files with
  | nil => simp
  | cons f rest ih =>
    cases h with
    | skip hnone hrest => exact List.forall_mem_cons.mpr ⟨hnone, ih hrest⟩

/-- Only a listing of nothing in lines has no text. -/
lemma Pagemap.render_eq_empty {format : ReportFormat} {pagemaps : List Pagemap} :
    Pagemap.render format pagemaps = "" ↔ format = .text ∧ pagemaps = [] := by
  cases format with
  | text =>
    match pagemaps with
    | [] => simp [Pagemap.render]
    | [p] => simp [Pagemap.render, Pagemap.line]
    | p :: q :: rest => simp [Pagemap.render, String.intercalate_cons_cons]
  | json =>
    cases pagemaps <;> simp [Pagemap.render, Json.pretty, Json.prettyChars]

namespace CommandLine

variable {t : Tree} {p : Path} {m : ChangeMap}

lemma savedMap_eq_ok (h : MapFile.Holds t p m) : savedMap t p = .ok m := by
  rw [savedMap, MapFile.load_eq_ok_some_iff.mpr h]

/-- What is no map, for whatever reason, is not told from a map that is not there. -/
lemma savedMap_eq_error (h : ∀ m, ¬ MapFile.Holds t p m) : savedMap t p = .error .disabled := by
  unfold savedMap
  split
  · next m hload => exact absurd (MapFile.load_eq_ok_some_iff.mp hload) (h m)
  · rfl

lemma printed_eq_empty {text : String} : printed text = "" ↔ text = "" := by
  unfold printed
  split
  · next h => simp [h]
  · next h => simp [h]

/-! ## What changed -/

namespace PagemapRequest

variable {r : PagemapRequest} {data : Path} {baseline : Lsn}

/-- The version's directory, as far as the request names one. -/
def version (r : PagemapRequest) : String :=
  r.versionDirectory?.getD Layout.defaultVersionDirectory

/-- The files that a request is about. -/
def files (t : Tree) (r : PagemapRequest) (data : Path) : List Segment :=
  (Walker.ofDataDirectory r.version data).collect t

/-- All arguments are there and in order, and name the data directory and the baseline. -/
structure Sound (r : PagemapRequest) (data : Path) (baseline : Lsn) : Prop where
  named : r.dataDirectory? = some data
  parsed : ∃ text, r.baseline? = some text ∧ Lsn.parse text = .ok baseline
  not_empty : data.text ≠ ""
  ordinary : r.version ≠ "" ∧ '/' ∉ r.version.toList

/-- How a request is answered: by the first thing that is the matter with it, or else by a listing of
what the map has of the files. -/
inductive Answered (t : Tree) (r : PagemapRequest) : Answer → Prop
  | noDirectory (h : r.dataDirectory? = none) :
      Answered t r (.failed (.missingArgument .dataDirectory))
  | noBaseline {data : Path} (hdata : r.dataDirectory? = some data) (h : r.baseline? = none) :
      Answered t r (.failed (.missingArgument .baseline))
  | badBaseline {data : Path} {text : String} (hdata : r.dataDirectory? = some data)
      (htext : r.baseline? = some text) (h : ∀ l, Lsn.parse text ≠ .ok l) :
      Answered t r (.failed (.invalidLsn (String.ofList (Text.trim text.toList))))
  | emptyDirectory {data : Path} {text : String} {baseline : Lsn}
      (hdata : r.dataDirectory? = some data) (htext : r.baseline? = some text)
      (hparse : Lsn.parse text = .ok baseline) (h : data.text = "") :
      Answered t r (.failed (.invalidConfig .emptyDataDirectory))
  | badVersion {data : Path} {text : String} {baseline : Lsn}
      (hdata : r.dataDirectory? = some data) (htext : r.baseline? = some text)
      (hparse : Lsn.parse text = .ok baseline) (hdirectory : data.text ≠ "")
      (h : r.version = "" ∨ '/' ∈ r.version.toList) :
      Answered t r (.failed (.invalidConfig (.badVersionDirectory r.version)))
  | noMap {data : Path} {baseline : Lsn} (hsound : r.Sound data baseline)
      (h : ∀ m, ¬ MapFile.Holds t (r.config data).mapLocation m) :
      Answered t r (.failed .disabled)
  | listed {data : Path} {baseline : Lsn} {m : ChangeMap} {pagemaps : List Pagemap}
      (hsound : r.Sound data baseline) (hmap : MapFile.Holds t (r.config data).mapLocation m)
      (hreported : Reported m baseline (r.files t data) pagemaps) :
      Answered t r (.done (printed (Pagemap.render r.format pagemaps)))

lemma check_config_eq (r : PagemapRequest) (data : Path) :
    (r.config data).check =
      if data.text = "" then .error (.invalidConfig .emptyDataDirectory)
      else if r.version = "" ∨ '/' ∈ r.version.toList then
        .error (.invalidConfig (.badVersionDirectory r.version))
      else .ok () := by
  have hoff : (r.config data).tracks = false := rfl
  have hgood : Config.goodVersionDirectory r.version = true ↔
      ¬ (r.version = "" ∨ '/' ∈ r.version.toList) := by
    simp [Config.goodVersionDirectory]
  unfold Config.check
  rw [hoff]
  show (if data.text = "" then _ else if (!Config.goodVersionDirectory r.version) = true then _
    else _) = _
  by_cases hversion : r.version = "" ∨ '/' ∈ r.version.toList
  · have hbad : Config.goodVersionDirectory r.version = false :=
      Bool.eq_false_iff.mpr fun h => hgood.mp h hversion
    simp only [hbad, if_pos hversion]
    rfl
  · simp only [hgood.mpr hversion, if_neg hversion]
    rfl

/-- A request whose arguments are in order is answered by the map. -/
lemma changedPagemaps_of_sound (h : r.Sound data baseline)
    (hmap : MapFile.Holds t (r.config data).mapLocation m) :
    changedPagemaps t r = .ok ((r.files t data).filterMap (m.pagemap? baseline)) := by
  obtain ⟨text, htext, hparse⟩ := h.parsed
  have hcheck : (r.config data).check = .ok () := by
    rw [check_config_eq, if_neg h.not_empty, if_neg (not_or.mpr h.ordinary)]
  have hasks : r.Asks (r.config data) baseline :=
    ⟨h.named, rfl, rfl, text, htext, .inr (.inr hparse)⟩
  rw [changedPagemaps_of_load (MapFile.load_eq_ok_some_iff.mpr hmap) hcheck hasks, files,
    Walker.collect_eq_segments]
  rfl

section Arguments

variable {text : String} (hdata : r.dataDirectory? = some data) (htext : r.baseline? = some text)
  (hparse : Lsn.parse text = .ok baseline)

include hdata htext hparse

lemma changedPagemaps_of_bad_settings {e : Error} (h : (r.config data).check = .error e) :
    changedPagemaps t r = .error e := by
  simp only [changedPagemaps, hdata, htext, hparse, h, bind, Except.bind]

lemma changedPagemaps_of_no_map (hcheck : (r.config data).check = .ok ())
    (h : ∀ m, ¬ MapFile.Holds t (r.config data).mapLocation m) :
    changedPagemaps t r = .error .disabled := by
  simp only [changedPagemaps, hdata, htext, hparse, hcheck, savedMap_eq_error h, bind, Except.bind]

/-- Once the baseline is read, the settings decide, and after them the map. -/
lemma answered_run_of_parse : r.Answered t ((Command.pagemap r).run t) := by
  have hcheck := r.check_config_eq data
  rw [Command.run]
  by_cases hempty : data.text = ""
  · rw [if_pos hempty] at hcheck
    rw [changedPagemaps_of_bad_settings hdata htext hparse hcheck]
    exact .emptyDirectory hdata htext hparse hempty
  rw [if_neg hempty] at hcheck
  by_cases hversion : r.version = "" ∨ '/' ∈ r.version.toList
  · rw [if_pos hversion] at hcheck
    rw [changedPagemaps_of_bad_settings hdata htext hparse hcheck]
    exact .badVersion hdata htext hparse hempty hversion
  rw [if_neg hversion] at hcheck
  have hsound : r.Sound data baseline :=
    ⟨hdata, ⟨text, htext, hparse⟩, hempty, not_or.mp hversion⟩
  by_cases hmap : ∃ m, MapFile.Holds t (r.config data).mapLocation m
  · obtain ⟨m, hmap⟩ := hmap
    rw [changedPagemaps_of_sound hsound hmap]
    exact .listed hsound hmap (m.reported_pagemaps baseline _)
  · have hnone := not_exists.mp hmap
    rw [changedPagemaps_of_no_map hdata htext hparse hcheck hnone]
    exact .noMap hsound hnone

end Arguments

/-- Every answer is of the kind that the request and the tree ask for. -/
lemma answered_run (t : Tree) (r : PagemapRequest) : r.Answered t ((Command.pagemap r).run t) := by
  cases hdata : r.dataDirectory? with
  | none =>
    have hrun : changedPagemaps t r = .error (.missingArgument .dataDirectory) := by
      simp [changedPagemaps, hdata]
    rw [Command.run, hrun]
    exact .noDirectory hdata
  | some data =>
    cases htext : r.baseline? with
    | none =>
      have hrun : changedPagemaps t r = .error (.missingArgument .baseline) := by
        simp [changedPagemaps, hdata, htext]
      rw [Command.run, hrun]
      exact .noBaseline hdata htext
    | some text =>
      cases hread : Lsn.read? text with
      | none =>
        have hparse : Lsn.parse text
            = .error (.invalidLsn (String.ofList (Text.trim text.toList))) := by
          rw [Lsn.parse, hread]
        have hrun : changedPagemaps t r
            = .error (.invalidLsn (String.ofList (Text.trim text.toList))) := by
          simp only [changedPagemaps, hdata, htext, hparse, bind, Except.bind]
        rw [Command.run, hrun]
        exact .badBaseline hdata htext fun l hl => by cases hparse.symm.trans hl
      | some baseline =>
        have hparse : Lsn.parse text = .ok baseline := by rw [Lsn.parse, hread]
        exact answered_run_of_parse hdata htext hparse

/-- There is a listing if and only if the arguments are in order and there is a map. -/
lemma listed_iff (t : Tree) (r : PagemapRequest) :
    (∃ output, (Command.pagemap r).run t = .done output) ↔
      ∃ data baseline m, r.Sound data baseline ∧
        MapFile.Holds t (r.config data).mapLocation m := by
  constructor
  · rintro ⟨output, hrun⟩
    have hanswered := answered_run t r
    rw [hrun] at hanswered
    cases hanswered with
    | listed hsound hmap hreported => exact ⟨_, _, _, hsound, hmap⟩
  · rintro ⟨data, baseline, m, hsound, hmap⟩
    rw [Command.run, changedPagemaps_of_sound hsound hmap]
    exact ⟨_, rfl⟩

/-- **Nothing is printed only if nothing changed.** -/
lemma unchanged_of_silent (h : (Command.pagemap r).run t = .done "") :
    r.format = .text ∧ ∃ data baseline m, r.Sound data baseline ∧
      MapFile.Holds t (r.config data).mapLocation m ∧
      ∀ f ∈ r.files t data, ∀ n, ¬ m.Qualifies baseline f n := by
  have hanswered := answered_run t r
  generalize (Command.pagemap r).run t = answer at h hanswered
  cases hanswered with
  | @listed data baseline m pagemaps hsound hmap hreported =>
    obtain ⟨hformat, rfl⟩ := Pagemap.render_eq_empty.mp (printed_eq_empty.mp (Answer.done.inj h))
    exact ⟨hformat, _, _, _, hsound, hmap, hreported.unchanged⟩
  | _ => cases h

end PagemapRequest

/-! ## Since when -/

/-- Where the map is that the start of the epoch is asked of.  A path of the map goes before that of the
data directory. -/
def epochLocation? (data? file? : Option Path) : Option Path :=
  file? <|> data?.map fun data => (Config.ofDataDirectory data).mapLocation

/-- How the start of the epoch is asked for and told. -/
inductive EpochAnswered (t : Tree) (data? file? : Option Path) : Answer → Prop
  | noDirectory (hdata : data? = none) (hfile : file? = none) :
      EpochAnswered t data? file? (.failed (.missingArgument .dataDirectory))
  | noMap {p : Path} (hp : epochLocation? data? file? = some p) (h : ∀ m, ¬ MapFile.Holds t p m) :
      EpochAnswered t data? file? (.failed .disabled)
  | told {p : Path} {m : ChangeMap} (hp : epochLocation? data? file? = some p)
      (hmap : MapFile.Holds t p m) : EpochAnswered t data? file? (.done (m.epoch.render ++ "\n"))

lemma savedEpoch_eq {data? file? : Option Path} (hp : epochLocation? data? file? = some p) :
    savedEpoch t data? file? = (savedMap t p).map (·.epoch) := by
  cases file? with
  | some file =>
    obtain rfl := Option.some.inj hp
    cases data? <;> rfl
  | none =>
    cases data? with
    | none => cases hp
    | some data =>
      obtain rfl := Option.some.inj hp
      rfl

lemma epochAnswered_run (t : Tree) (data? file? : Option Path) :
    EpochAnswered t data? file? ((Command.epoch data? file?).run t) := by
  cases hp : epochLocation? data? file? with
  | none =>
    cases data? <;> cases file? <;> first | exact .noDirectory rfl rfl | cases hp
  | some p =>
    rw [Command.run, savedEpoch_eq hp]
    by_cases hmap : ∃ m, MapFile.Holds t p m
    · obtain ⟨m, hmap⟩ := hmap
      rw [savedMap_eq_ok hmap]
      exact .told hp hmap
    · have hnone := not_exists.mp hmap
      rw [savedMap_eq_error hnone]
      exact .noMap hp hnone

lemma told_iff (t : Tree) (data? file? : Option Path) :
    (∃ output, (Command.epoch data? file?).run t = .done output) ↔
      ∃ p m, epochLocation? data? file? = some p ∧ MapFile.Holds t p m := by
  constructor
  · rintro ⟨output, hrun⟩
    have hanswered := epochAnswered_run t data? file?
    rw [hrun] at hanswered
    cases hanswered with
    | told hp hmap => exact ⟨_, _, hp, hmap⟩
  · rintro ⟨p, m, hp, hmap⟩
    rw [Command.run, savedEpoch_eq hp, savedMap_eq_ok hmap]
    exact ⟨_, rfl⟩

/-! ## Requests in words -/

/-- The word that gives an option its value. -/
def Opt.word (o : Opt) (value : String) : String := "--" ++ o.long ++ "=" ++ value

lemma Opt.long_injective : Function.Injective Opt.long := by
  intro a b h
  cases a <;> cases b <;> first | rfl | exact absurd h (by decide)

lemma Word.ofString_word (o : Opt) (value : String) :
    Word.ofString (o.word value) = .long o.long (some value) := by
  have hlist : (o.word value).toList = '-' :: '-' :: (o.long.toList ++ '=' :: value.toList) := by
    simp [Opt.word]
  have hequals : '=' ∉ o.long.toList := by cases o <;> decide
  have hcut := Text.cut_append hequals value.toList
  obtain ⟨c, rest, hbody⟩ : ∃ c rest, o.long.toList ++ '=' :: value.toList = c :: rest :=
    List.exists_cons_of_ne_nil (by simp)
  rw [hbody] at hlist hcut
  simp [Word.ofString, hlist, hcut]

lemma find?_long {allowed : List Opt} {o : Opt} (h : o ∈ allowed) :
    allowed.find? (·.long = o.long) = some o := by
  obtain ⟨found, hfound⟩ : ∃ found, allowed.find? (·.long = o.long) = some found :=
    Option.isSome_iff_exists.mp (List.find?_isSome.mpr ⟨o, h, by simp⟩)
  have hlong := List.find?_some hfound
  rw [hfound, Opt.long_injective (of_decide_eq_true hlong)]

/-- A word that gives an option its value is taken by itself. -/
lemma readWords_long {allowed : List Opt} {given given' : List (Opt × String)} {o : Opt}
    {value : String} (hallowed : o ∈ allowed) (hgive : give given o value = .ok given')
    (rest : List String) :
    readWords allowed given none (o.word value :: rest) = readWords allowed given' none rest := by
  have hfind := find?_long hallowed
  have hword := Word.ofString_word o value
  conv_lhs => unfold readWords
  rw [hword]
  split
  case h_5 name found _ hsame _ =>
    obtain ⟨rfl, rfl⟩ := Word.long.inj hsame
    simp only [hfind, hgive]
    rfl
  all_goals simp_all

/-- Words that give values to different options are read as these values. -/
lemma readWords_words {allowed : List Opt} {given options : List (Opt × String)}
    (hallowed : ∀ x ∈ options, x.1 ∈ allowed ∧ x.1.accepts x.2 = true)
    (hnodup : ((options ++ given).map Prod.fst).Nodup) :
    readWords allowed given none (options.map fun x => x.1.word x.2)
      = .ok (options.reverse ++ given) := by
  induction options generalizing given with
  | nil => rfl
  | cons x rest ih =>
    obtain ⟨o, value⟩ := x
    obtain ⟨⟨hmem, haccepts⟩, hrest⟩ := List.forall_mem_cons.mp hallowed
    rw [List.cons_append, List.map_cons, List.nodup_cons] at hnodup
    have hnew : given.any (·.1 = o) = false := by
      rw [List.any_eq_false]
      intro y hy hsame
      apply hnodup.1
      rw [List.map_append, List.mem_append]
      exact .inr (List.mem_map.mpr ⟨y, hy, of_decide_eq_true hsame⟩)
    have hgive : give given o value = .ok ((o, value) :: given) := by
      simp [give, hnew, haccepts]
    have hperm : ((rest ++ (o, value) :: given).map Prod.fst).Nodup := by
      rw [List.map_append, List.map_cons, List.nodup_middle, ← List.map_append]
      exact List.nodup_cons.mpr hnodup
    rw [List.map_cons, readWords_long hmem hgive, ih hrest hperm, List.reverse_cons,
      List.append_assoc, List.singleton_append]

/-- The options that are given a value. -/
def givenOf (offers : List (Opt × Option String)) : Given :=
  offers.filterMap fun x => x.2.map fun value => (x.1, value)

/-- All options can have the values that they are given: no path is empty. -/
abbrev Acceptable (offers : List (Opt × Option String)) : Prop :=
  ∀ x ∈ givenOf offers, x.1.accepts x.2 = true

lemma mem_givenOf {offers : List (Opt × Option String)} {o : Opt} {value : String} :
    (o, value) ∈ givenOf offers ↔ (o, some value) ∈ offers := by
  simp only [givenOf, List.mem_filterMap, Option.map_eq_some_iff, Prod.mk.injEq]
  constructor
  · rintro ⟨⟨_, _⟩, hmem, _, rfl, rfl, rfl⟩
    exact hmem
  · intro hmem
    exact ⟨_, hmem, _, rfl, rfl, rfl⟩

lemma keys_givenOf (offers : List (Opt × Option String)) :
    ((givenOf offers).map Prod.fst).Sublist (offers.map Prod.fst) := by
  induction offers with
  | nil => exact .slnil
  | cons x rest ih =>
    obtain ⟨o, value?⟩ := x
    cases value? with
    | none => exact ih.cons o
    | some value => exact ih.cons_cons o

/-- What was offered is what is read. -/
lemma value?_givenOf {offers : List (Opt × Option String)} (hnodup : (offers.map Prod.fst).Nodup)
    {o : Opt} {value? : Option String} (h : (o, value?) ∈ offers) :
    Given.value? (givenOf offers).reverse o = value? := by
  have hkeys := (keys_givenOf offers).nodup hnodup
  cases value? with
  | some value =>
    refine Tree.lookup_of_mem ?_ (List.mem_reverse.mpr (mem_givenOf.mpr h))
    rw [List.map_reverse, List.nodup_reverse]
    exact hkeys
  | none =>
    refine List.lookup_eq_none_iff.mpr fun x hx => ?_
    obtain ⟨o', value⟩ := x
    have hoffer := mem_givenOf.mp (List.mem_reverse.mp hx)
    rw [bne_iff_ne]
    rintro rfl
    have hsame := List.inj_on_of_nodup_map hnodup h hoffer rfl
    cases hsame

lemma readOptions_givenOf {allowed : List Opt} {offers : List (Opt × Option String)}
    (hallowed : offers.map Prod.fst ⊆ allowed) (hnodup : (offers.map Prod.fst).Nodup)
    (haccepts : Acceptable offers) :
    readOptions allowed ((givenOf offers).map fun x => x.1.word x.2)
      = .ok (givenOf offers).reverse := by
  have hoptions : ∀ x ∈ givenOf offers, x.1 ∈ allowed ∧ x.1.accepts x.2 = true := fun x hx =>
    ⟨hallowed (List.mem_map.mpr ⟨_, mem_givenOf.mp hx, rfl⟩), haccepts x hx⟩
  have hkeys : ((givenOf offers ++ []).map Prod.fst).Nodup := by
    rw [List.append_nil]
    exact (keys_givenOf offers).nodup hnodup
  have hread := readWords_words hoptions hkeys
  rwa [List.append_nil] at hread

/-- What a request gives the options of `pagemap`. -/
def PagemapRequest.offers (r : PagemapRequest) : List (Opt × Option String) :=
  [(.dataDirectory, r.dataDirectory?.map Path.text), (.baseline, r.baseline?),
    (.mapFile, r.mapFile?.map Path.text), (.format, some (if r.format = .json then "json" else "text")),
    (.versionDirectory, r.versionDirectory?)]

/-- A command line that makes a request for what changed. -/
def PagemapRequest.words (r : PagemapRequest) : List String :=
  "pagemap" :: (givenOf r.offers).map fun x => x.1.word x.2

/-- What the options of `init-lsn` are given. -/
def epochOffers (data? file? : Option Path) : List (Opt × Option String) :=
  [(.dataDirectory, data?.map Path.text), (.mapFile, file?.map Path.text)]

/-- A command line that asks for the start of the epoch. -/
def epochWords (data? file? : Option Path) : List String :=
  "init-lsn" :: (givenOf (epochOffers data? file?)).map fun x => x.1.word x.2

lemma map_mk_text (p? : Option Path) : (p?.map Path.text).map Path.mk = p? := by
  cases p? <;> rfl

/-- Every request without empty paths is made by some command line. -/
lemma read_words {r : PagemapRequest} (h : Acceptable r.offers) :
    Command.read r.words = .ok (.pagemap r) := by
  have hnodup : (r.offers.map Prod.fst).Nodup := by
    show [Opt.dataDirectory, .baseline, .mapFile, .format, .versionDirectory].Nodup
    decide
  have hread := readOptions_givenOf (List.Subset.refl _) hnodup h
  have hvalue {o : Opt} {value? : Option String} (hoffer : (o, value?) ∈ r.offers) :
      Given.value? (givenOf r.offers).reverse o = value? := value?_givenOf hnodup hoffer
  have hgiven : PagemapRequest.ofGiven (givenOf r.offers).reverse = r := by
    have hdata : (_, r.dataDirectory?.map Path.text) ∈ r.offers := .head _
    have hbaseline : (_, r.baseline?) ∈ r.offers := .tail _ (.head _)
    have hfile : (_, r.mapFile?.map Path.text) ∈ r.offers := .tail _ (.tail _ (.head _))
    have hformat : (Opt.format, some (if r.format = .json then "json" else "text")) ∈ r.offers :=
      .tail _ (.tail _ (.tail _ (.head _)))
    have hversion : (_, r.versionDirectory?) ∈ r.offers :=
      .tail _ (.tail _ (.tail _ (.tail _ (.head _))))
    unfold PagemapRequest.ofGiven Given.path?
    rw [hvalue hdata, hvalue hbaseline, hvalue hfile, hvalue hformat, hvalue hversion, map_mk_text,
      map_mk_text]
    obtain ⟨data?, baseline?, file?, format, version?⟩ := r
    cases format <;> rfl
  show (do
    let given ← readOptions (r.offers.map Prod.fst) _
    return Command.pagemap (.ofGiven given) : Except Stop Command) = _
  rw [hread]
  show Except.ok (Command.pagemap (.ofGiven _)) = _
  rw [hgiven]

/-- So is every question since when changes are recorded. -/
lemma read_epochWords {data? file? : Option Path} (h : Acceptable (epochOffers data? file?)) :
    Command.read (epochWords data? file?) = .ok (.epoch data? file?) := by
  have hnodup : ((epochOffers data? file?).map Prod.fst).Nodup := by
    show [Opt.dataDirectory, .mapFile].Nodup
    decide
  have hread := readOptions_givenOf (List.Subset.refl _) hnodup h
  have hdata : (_, data?.map Path.text) ∈ epochOffers data? file? := .head _
  have hfile : (_, file?.map Path.text) ∈ epochOffers data? file? := .tail _ (.head _)
  have hdata' := value?_givenOf hnodup hdata
  have hfile' := value?_givenOf hnodup hfile
  show (do
    let given ← readOptions ((epochOffers data? file?).map Prod.fst) _
    return Command.epoch (given.path? .dataDirectory) (given.path? .mapFile) :
      Except Stop Command) = _
  rw [hread]
  show Except.ok (Command.epoch (((Given.value? _ _).map Path.mk)) ((Given.value? _ _).map Path.mk)) = _
  rw [hdata', hfile', map_mk_text, map_mk_text]

/-- **Commands are never silently wrong about the map.**  A request for what changed is answered by the
first thing that is the matter with it, its arguments before the map, or else by the listing of an exact
scan of the decoded map; there is a listing if and only if the arguments are in order and the file
holds a map, and nothing at all is printed only if no block that is asked about changed.  The start of
the epoch is told if and only if the file holds a map.  In both cases a map that is missing, damaged or
cannot be read is a failure, and nothing is printed.

These are the answers of command lines: what their words are read as is answered, words that are not
read are refused on every tree, and each request without empty paths is made by some words.  An answer
comes without a tree, as commands change nothing. -/
theorem commands_never_silently_wrong (t : Tree) :
    (∀ r : PagemapRequest,
      r.Answered t ((Command.pagemap r).run t) ∧
      ((∃ output, (Command.pagemap r).run t = .done output) ↔
        ∃ data baseline m, r.Sound data baseline ∧
          MapFile.Holds t (r.config data).mapLocation m) ∧
      ((Command.pagemap r).run t = .done "" →
        r.format = .text ∧ ∃ data baseline m, r.Sound data baseline ∧
          MapFile.Holds t (r.config data).mapLocation m ∧
          ∀ f ∈ r.files t data, ∀ n, ¬ m.Qualifies baseline f n)) ∧
    (∀ data? file?,
      EpochAnswered t data? file? ((Command.epoch data? file?).run t) ∧
      ((∃ output, (Command.epoch data? file?).run t = .done output) ↔
        ∃ p m, epochLocation? data? file? = some p ∧ MapFile.Holds t p m)) ∧
    (∀ words command, Command.read words = .ok command → answer t words = command.run t) ∧
    (∀ words why, Command.read words = .error why → answer t words = .stopped why) ∧
    (∀ r : PagemapRequest, Acceptable r.offers → Command.read r.words = .ok (.pagemap r)) ∧
    ∀ data? file?, Acceptable (epochOffers data? file?) →
      Command.read (epochWords data? file?) = .ok (.epoch data? file?) := by
  refine ⟨fun r => ⟨PagemapRequest.answered_run t r, PagemapRequest.listed_iff t r,
    PagemapRequest.unchanged_of_silent⟩, fun data? file? => ⟨epochAnswered_run t data? file?,
    told_iff t data? file?⟩, ?_, ?_, fun r => read_words, fun data? file? => read_epochWords⟩
  · intro words command hread
    rw [answer, hread]
  · intro words why hread
    rw [answer, hread]

/-- A new map is asked in words, and another one that is not there. -/
theorem commands_never_silently_wrong_new_map :
    let m := ChangeMap.empty 2 ⟨60⟩ (by decide)
    let t := Tree.empty.put [.ofText "m"] (.file (.ofBytes m.toImage))
    (∃ output, answer t ["pagemap", "--pgdata=/d", "--lsn=50", "--map-file=/m", "--format=json"]
      = .done output) ∧
    answer t ["init-lsn", "--map-file=/m"] = .done "0/3C\n" ∧
    answer t ["init-lsn", "--map-file=/x"] = .failed .disabled := by
  intro m t
  obtain ⟨hpagemap, hepoch, hread, -, hwords, hepochWords⟩ := commands_never_silently_wrong t
  have hcontents : t.contentsAt ⟨"/m"⟩ = .ok (.ofBytes m.toImage) :=
    MapFile.contentsAt_of_spot rfl (Tree.find?_put (by simp) _ _) rfl
  have himage : ChangeMap.ofImage (Contents.ofBytes m.toImage).toBytes = .ok m := by
    rw [MapFile.toBytes_ofBytes, ChangeMap.ofImage_toImage]
    rfl
  have hholds : MapFile.Holds t ⟨"/m"⟩ m := ⟨_, hcontents, himage⟩
  have hline : Command.read ["pagemap", "--pgdata=/d", "--lsn=50", "--map-file=/m", "--format=json"]
      = .ok (.pagemap ⟨some ⟨"/d"⟩, some "50", some ⟨"/m"⟩, .json, none⟩) := by
    rw [← hwords _ (by decide)]
    exact congrArg _ (by decide +kernel)
  have hepochLine (p : Path) (hp : Acceptable (epochOffers none (some p))) :
      answer t (epochWords none (some p)) = (Command.epoch none (some p)).run t :=
    hread _ _ (hepochWords none (some p) hp)
  refine ⟨?_, ?_, ?_⟩
  · rw [hread _ _ hline]
    have hsound : PagemapRequest.Sound ⟨some ⟨"/d"⟩, some "50", some ⟨"/m"⟩, .json, none⟩ ⟨"/d"⟩
        ⟨50⟩ :=
      ⟨rfl, ⟨"50", rfl, by decide +kernel⟩, by decide, by decide⟩
    exact (hpagemap _).2.1.mpr ⟨_, _, m, hsound, hholds⟩
  · have hwords : ["init-lsn", "--map-file=/m"] = epochWords none (some ⟨"/m"⟩) := by
      decide +kernel
    rw [hwords, hepochLine _ (by decide)]
    have hanswered := (hepoch none (some ⟨"/m"⟩)).1
    generalize (Command.epoch none (some ⟨"/m"⟩)).run t = found at hanswered ⊢
    cases hanswered with
    | noDirectory _ hfile => cases hfile
    | noMap hp h =>
      obtain rfl := Option.some.inj hp
      exact absurd hholds (h m)
    | told hp hmap =>
      obtain rfl := Option.some.inj hp
      obtain ⟨contents, hfound, hof⟩ := hmap
      obtain rfl := Except.ok.inj (hcontents.symm.trans hfound)
      obtain rfl := Except.ok.inj (himage.symm.trans hof)
      decide +kernel
  · have hwords : ["init-lsn", "--map-file=/x"] = epochWords none (some ⟨"/x"⟩) := by
      decide +kernel
    rw [hwords, hepochLine _ (by decide)]
    have hanswered := (hepoch none (some ⟨"/x"⟩)).1
    generalize (Command.epoch none (some ⟨"/x"⟩)).run t = found at hanswered ⊢
    cases hanswered with
    | noDirectory _ hfile => cases hfile
    | noMap hp h => rfl
    | told hp hmap =>
      obtain rfl := Option.some.inj hp
      obtain ⟨contents, hfound, -⟩ := hmap
      have hmissing : t.contentsAt ⟨"/x"⟩ = .error .notFound := by decide +kernel
      cases hmissing.symm.trans hfound

end CommandLine

end ChangeTracking

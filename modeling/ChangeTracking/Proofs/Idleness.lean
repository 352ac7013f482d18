import ChangeTracking.Observer
import ChangeTracking.Proofs.Run

/-!
# Idle trackers do nothing

Why a tracker is idle makes no difference to what it does, which is nothing: it declines every
request (`Request.declined`), takes no part in what happens to the files, and the next request finds
it idle again.  So one request is all that there is to look at (`respond_of_idle`), and what holds of
it holds of any number (`conduct_of_idle`).

The one request that is not declined is for a new map of a size that maps can have.  It makes the
tracker active, and the new map's epoch starts where the log is then (`replaceMap_of_idle`).
-/

namespace ChangeTracking

/-- What can be asked of a tracker: to do something, or to say something. -/
inductive Request
  | mark (b : Block) (l : Lsn)
  /-- A directory is to be marked; `events` says what happens during each pass. -/
  | markDirectory (root : Walk.Root) (events : List (List Interruption))
  /-- The tracker is told what the storage engine does. -/
  | observe (event : Event)
  | checkpoint
  | stop
  | replaceMap (bytes : UInt64)
  | liveMap
  | epoch
  | covers (baseline : Lsn)
  | scan (baseline : Lsn)

/-- What a tracker gives back. -/
inductive Response
  | nothing
  | copy (outcome : CopyOutcome)
  | checkpoint (result : Except Error Unit)
  | replaceMap (result : Except Error Lsn)
  | liveMap (live? : Option MapId)
  | epoch (epoch? : Option Lsn)
  | covers (answer : Bool)
  | scan (result : Except Error OpenScan)

namespace Request

/-- What a tracker gives back that does nothing about a request. -/
def declined : Request → Response
  | mark _ _ | observe _ | stop => .nothing
  | markDirectory _ _ => .copy .skipped
  | checkpoint => .checkpoint (.ok ())
  | replaceMap bytes => .replaceMap (.error (.invalidMapSize bytes))
  | liveMap => .liveMap none
  | epoch => .epoch none
  | covers _ => .covers false
  | scan _ => .scan (.error .disabled)

/-- Why a tracker is idle that was so before the request. -/
def idleReason (before : IdleReason) : Request → IdleReason
  | stop => .stopped
  | _ => before

end Request

lemma Request.foldl_idleReason (requests : List Request) (before : IdleReason) :
    requests.foldl idleReason before = before ∨ requests.foldl idleReason before = .stopped := by
  induction requests generalizing before with
  | nil => exact .inl rfl
  | cons r rest ih =>
    rw [List.foldl_cons]
    cases r with
    | stop => exact .inr ((ih .stopped).elim id id)
    | _ => exact ih before

/-- What happens to a tracker, or around it. -/
inductive Move
  | ask (r : Request)
  /-- The log is written up to a position. -/
  | advance (position : Lsn)
  /-- Somebody changes files. -/
  | changeTree (tree : Tree)

namespace Move

/-- What is asked, if something is. -/
def request? : Move → Option Request
  | ask r => some r
  | advance _ | changeTree _ => none

/-- What a host becomes, as far as the tracker takes no part in it. -/
def around (h : Host) : Move → Host
  | ask _ => h
  | advance position => { h with position := position }
  | changeTree tree => { h with tree := tree }

/-- Whether no request is for a map of a size that maps can have. -/
def Declinable (moves : List Move) : Prop :=
  ∀ bytes, ask (.replaceMap bytes) ∈ moves → ¬ GoodMapSize bytes

lemma Declinable.tail {move : Move} {rest : List Move} (h : Declinable (move :: rest)) :
    Declinable rest :=
  fun bytes hmem => h bytes (List.mem_cons_of_mem move hmem)

lemma tree_around {moves : List Move} (h : ∀ tree, changeTree tree ∉ moves) (host : Host) :
    (moves.foldl around host).tree = host.tree := by
  induction moves generalizing host with
  | nil => rfl
  | cons move rest ih =>
    rw [List.foldl_cons, ih fun tree hmem => h tree (List.mem_cons_of_mem move hmem)]
    cases move with
    | ask r => rfl
    | advance position => rfl
    | changeTree tree => exact absurd List.mem_cons_self (h tree)

lemma maps_around (moves : List Move) (host : Host) :
    (moves.foldl around host).maps = host.maps := by
  induction moves generalizing host with
  | nil => rfl
  | cons move rest ih =>
    rw [List.foldl_cons, ih]
    cases move <;> rfl

end Move

namespace Tracking

variable {s : Tracking} {reason : IdleReason}

/-- What a tracker does about a request, and what it gives back. -/
def respond (s : Tracking) : Request → Response × Tracking
  | .mark b l => (.nothing, s.mark b l)
  | .markDirectory root events =>
    let (outcome, after) := s.markDirectory root events
    (.copy outcome, after)
  | .observe event => (.nothing, s.handle event)
  | .checkpoint =>
    let (result, after) := s.checkpoint
    (.checkpoint result, after)
  | .stop => (.nothing, s.stop)
  | .replaceMap bytes =>
    let (result, after) := s.replaceMap bytes
    (.replaceMap result, after)
  | .liveMap => (.liveMap s.live?, s)
  | .epoch => (.epoch s.epoch?, s)
  | .covers baseline => (.covers (s.covers baseline), s)
  | .scan baseline => (.scan (s.openScan baseline), s)

/-- What the tracker gives back in the course of some moves, and what has become of it. -/
def conduct (s : Tracking) : List Move → List Response × Tracking
  | [] => ([], s)
  | .ask r :: rest =>
    let (response, after) := s.respond r
    let (responses, last) := after.conduct rest
    (response :: responses, last)
  | move :: rest => (s.withHost (move.around s.host)).conduct rest

/-! ## One request -/

lemma live?_of_idle (h : s.tracker.mode = .idle reason) : s.live? = none := by
  rw [live?, h]

lemma liveMap?_of_idle (h : s.tracker.mode = .idle reason) : s.liveMap? = none := by
  rw [liveMap?, live?_of_idle h, Option.map_none]

lemma withMode_self (h : s.tracker.mode = .idle reason) : s.withMode (.idle reason) = s := by
  rw [withMode, ← h]

lemma retireLive_of_idle (h : s.tracker.mode = .idle reason) : s.retireLive = s := by
  rw [retireLive, live?_of_idle h]

lemma checkpoint_of_idle (h : s.tracker.mode = .idle reason) : s.checkpoint = (.ok (), s) := by
  rw [checkpoint, liveMap?_of_idle h]

lemma stop_of_idle (h : s.tracker.mode = .idle reason) : s.stop = s.withMode (.idle .stopped) := by
  rw [stop_eq, checkpoint_of_idle h, retireLive_of_idle h]

/-- An idle tracker skips a directory before any pass, so nothing happens during one. -/
lemma markDirectory_of_idle (h : s.tracker.mode = .idle reason) (root : Walk.Root)
    (events : List (List Interruption)) : s.markDirectory root events = (.skipped, s) := by
  have hpasses : s.markPasses root events = (.skipped, s) := by
    cases events <;> rw [markPasses, live?_of_idle h]
  rw [markDirectory, hpasses, ite_self]

lemma copied_of_idle (h : s.tracker.mode = .idle reason) (p : Path) : s.copied p = s := by
  simp only [copied, markDirectory_of_idle h]
  split
  · rfl
  · split <;> rfl

lemma handle_of_idle (h : s.tracker.mode = .idle reason) (event : Event) : s.handle event = s := by
  cases event with
  | written b l => exact mark_eq_self (live?_of_idle h) b l
  | extended b l => exact mark_eq_self (live?_of_idle h) b l
  | copied p => exact copied_of_idle h p
  | checkpoint => rw [handle, checkpoint_of_idle h]

/-- An idle tracker declines a request, and at most the reason for its idleness is another then. -/
lemma respond_of_idle (h : s.tracker.mode = .idle reason) {r : Request}
    (hr : ∀ bytes, r = .replaceMap bytes → ¬ GoodMapSize bytes) :
    s.respond r = (r.declined, s.withMode (.idle (r.idleReason reason))) := by
  have hlive := live?_of_idle h
  have hmap := liveMap?_of_idle h
  have hkept : ∀ response : Response, (response, s) = (response, s.withMode (.idle reason)) := by
    intro response
    rw [withMode_self h]
  cases r with
  | mark b l =>
    rw [respond, mark_eq_self hlive]
    exact hkept _
  | markDirectory root events =>
    rw [respond, markDirectory_of_idle h]
    exact hkept _
  | observe event =>
    rw [respond, handle_of_idle h]
    exact hkept _
  | checkpoint =>
    rw [respond, checkpoint_of_idle h]
    exact hkept _
  | stop =>
    rw [respond, stop_of_idle h]
    rfl
  | replaceMap bytes =>
    rcases s.replaceMap_cases bytes with ⟨-, hrefused⟩ | ⟨hgood, -⟩
    · rw [respond, hrefused]
      exact hkept _
    · exact absurd hgood (hr bytes rfl)
  | liveMap =>
    rw [respond, hlive]
    exact hkept _
  | epoch =>
    rw [respond, epoch?, hmap]
    exact hkept _
  | covers baseline =>
    rw [respond, covers, hmap]
    exact hkept _
  | scan baseline =>
    rw [respond, openScan, hlive]
    exact hkept _

/-- A map of a size that maps can have makes an idle tracker active. -/
lemma replaceMap_of_idle (h : s.tracker.mode = .idle reason) {bytes : UInt64}
    (hsize : GoodMapSize bytes) :
    ∃ m after, ChangeMap.create bytes s.host.position = .ok m ∧
      s.replaceMap bytes = (.ok s.host.position, after) ∧
      after.live? = some s.host.maps.size ∧ after.host.map s.host.maps.size = m := by
  rcases s.replaceMap_cases bytes with ⟨hbad, -⟩ | ⟨-, m, hm, heq⟩
  · exact absurd hsize hbad
  · rw [liveMap?_of_idle h] at hm
    rw [retireLive_of_idle h] at heq
    have hepoch : m.epoch = s.host.position := ChangeMap.epoch_create hm
    exact ⟨m, s.withNewMap m, hm, hepoch ▸ heq, s.live?_withNewMap m,
      Host.map_of_maps_eq_push (s.maps_withNewMap m)⟩

/-! ## Any number of requests -/

/-- An idle tracker declines all requests, and the host becomes what it becomes without it. -/
lemma conduct_of_idle (h : s.tracker.mode = .idle reason) {moves : List Move}
    (hmoves : Move.Declinable moves) :
    (s.conduct moves).1 = (moves.filterMap Move.request?).map Request.declined ∧
      (s.conduct moves).2 = (s.withHost (moves.foldl Move.around s.host)).withMode
        (.idle ((moves.filterMap Move.request?).foldl Request.idleReason reason)) := by
  induction moves generalizing s reason with
  | nil => exact ⟨rfl, (withMode_self h).symm⟩
  | cons move rest ih =>
    cases move with
    | ask r =>
      have hr : ∀ bytes, r = .replaceMap bytes → ¬ GoodMapSize bytes := by
        rintro bytes rfl
        exact hmoves bytes List.mem_cons_self
      obtain ⟨hresponses, hlast⟩ := ih (s := s.withMode (.idle (r.idleReason reason))) rfl
        hmoves.tail
      rw [conduct, respond_of_idle h hr]
      exact ⟨congrArg (r.declined :: ·) hresponses, hlast⟩
    | advance position => exact ih (s := s.withHost { s.host with position := position }) h hmoves.tail
    | changeTree tree => exact ih (s := s.withHost { s.host with tree := tree }) h hmoves.tail

/-- **An idle tracker does nothing until it is given a map.**  Take a tracker that is idle for any
reason, and any course of requests and of what happens around the tracker, in which no new map is
asked for of a size that maps can have.  All requests are declined: directories are skipped,
checkpoints succeed, there is no live map and no epoch, no baseline is covered and no scan is opened.
The tracker is idle to the end, and the host is what it becomes without the tracker; so unless
somebody else changes files, every file is what it was.  The first map of a good size makes the
tracker active, with an empty map whose epoch starts where the log is then. -/
theorem idle_until_replaced (h : s.tracker.mode = .idle reason) {moves : List Move}
    (hmoves : Move.Declinable moves) :
    (s.conduct moves).1 = (moves.filterMap Move.request?).map Request.declined ∧
      (∃ reason', (s.conduct moves).2.tracker = { s.tracker with mode := .idle reason' } ∧
        (reason' = reason ∨ reason' = .stopped)) ∧
      (s.conduct moves).2.host = moves.foldl Move.around s.host ∧
      (s.conduct moves).2.host.maps = s.host.maps ∧
      ((∀ tree, .changeTree tree ∉ moves) → (s.conduct moves).2.host.tree = s.host.tree) ∧
      ∀ bytes, GoodMapSize bytes → ∃ id after,
        (s.conduct moves).2.replaceMap bytes = (.ok (s.conduct moves).2.host.position, after) ∧
        after.live? = some id ∧ (after.host.map id).valid = true ∧
        (after.host.map id).epoch = (s.conduct moves).2.host.position ∧
        (after.host.map id).slotCount = bytes.toNat / slotBytes ∧
        ∀ b, (after.host.map id).read b = Lsn.never := by
  obtain ⟨hresponses, hlast⟩ := conduct_of_idle h hmoves
  have hhost : (s.conduct moves).2.host = moves.foldl Move.around s.host := by
    rw [hlast]
    rfl
  have hidle : (s.conduct moves).2.tracker.mode
      = .idle ((moves.filterMap Move.request?).foldl Request.idleReason reason) := by
    rw [hlast]
    rfl
  refine ⟨hresponses, ⟨_, by rw [hlast]; rfl, Request.foldl_idleReason _ _⟩, hhost, ?_, ?_, ?_⟩
  · rw [hhost, Move.maps_around]
  · intro hfiles
    rw [hhost, Move.tree_around hfiles]
  · intro bytes hsize
    obtain ⟨m, after, hm, heq, hlive, hmap⟩ := replaceMap_of_idle hidle hsize
    refine ⟨_, after, heq, hlive, ?_⟩
    rw [hmap]
    refine ⟨ChangeMap.valid_create hm, ChangeMap.epoch_create hm, ChangeMap.slotCount_create hm, ?_⟩
    intro b
    rw [ChangeMap.read_eq_slot, ChangeMap.slot_create hm]

/-- A tracker that was started on a file that is no map.  The file stays as it is while the tracker
is asked for this and that and is stopped. -/
theorem idle_until_replaced_unreadable :
    let config : Config := ⟨⟨"d"⟩, 8, "v1", some ⟨"m"⟩⟩
    let tree := Tree.empty.put [.ofText "m"] (.file (.ofBytes [1]))
    let b : Block := ⟨⟨defaultTablespace, 5, 16384⟩, .main, 0⟩
    let moves : List Move := [.ask (.mark b ⟨110⟩), .ask .checkpoint, .ask (.replaceMap 7),
      .advance ⟨120⟩, .ask .stop, .ask (.covers ⟨200⟩)]
    ∃ s, start config exemptNone ⟨tree, ⟨100⟩, #[]⟩ = .ok s ∧
      s.tracker.mode = .idle (.unreadable (.corrupt .shortHeader)) ∧ Move.Declinable moves ∧
      (s.conduct moves).2.host.tree = tree ∧
      ∃ id after, (s.conduct moves).2.replaceMap 8 = (.ok ⟨120⟩, after) ∧ after.live? = some id := by
  intro config tree b moves
  have hcontents : tree.contentsAt config.mapLocation = .ok (.ofBytes [1]) := by decide +kernel
  have hload : MapFile.load tree config.mapLocation = .error (.corrupt .shortHeader) := by
    rw [MapFile.load, hcontents]
    rfl
  have hmoves : Move.Declinable moves := by
    intro bytes hmem hgood
    obtain rfl : bytes = 7 := by simpa [moves] using hmem
    exact absurd hgood.1 (by decide)
  have hfiles : ∀ other, Move.changeTree other ∉ moves := by
    intro other hmem
    simp [moves] at hmem
  have hcheck : config.check = .ok () := by decide
  refine ⟨_, start_eq_unreadable hcheck (by decide) hload, rfl, hmoves, ?_⟩
  obtain ⟨-, -, hhost, -, htree, hreplace⟩ := idle_until_replaced
    (s := idle config exemptNone ⟨tree, ⟨100⟩, #[]⟩ (.unreadable (.corrupt .shortHeader))) rfl hmoves
  obtain ⟨id, after, heq, hlive, -⟩ := hreplace 8 (by decide)
  rw [hhost] at heq
  exact ⟨htree hfiles, id, after, heq, hlive⟩

end Tracking

end ChangeTracking

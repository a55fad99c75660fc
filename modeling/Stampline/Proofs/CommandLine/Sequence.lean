import Stampline.Proofs.CommandLine.Turns
import Stampline.Proofs.Files.Written

/-!
# A call of the program

Sources have their turns one after the other until one does not get through. What a call prints is
what they print, in their order, and the sources behind that one count for nothing. The module of the
last source is written if all get through, and the exit status tells whether that was done.
-/

namespace Stampline

/-- Makes the directory that holds what is at a path. -/
def Disk.makeParent (disk : Disk) (path : String) : Except FileFault Unit × Disk :=
  let directory := (Path.parent? path).getD ""
  if directory.isEmpty then (.ok (), disk) else disk.makeDirectories directory

/-- Bytes can be written to a path, and the disk is what this leaves. -/
def Disk.Stores (disk : Disk) (path : String) (bytes : List UInt8) (disk' : Disk) : Prop :=
  ∃ made, disk.makeParent path = (.ok (), made) ∧ made.writeFile path bytes = .ok disk'

theorem Disk.Stores.look {disk disk' : Disk} {path : String} {bytes : List UInt8}
    (h : disk.Stores path bytes disk') : disk'.look path = .ok (.file bytes) := by
  obtain ⟨made, -, hwrite⟩ := h
  exact Disk.look_of_writeFile hwrite

namespace CommandLine

variable {settings : Settings} {fuel : Nat}

/-- Sources get through their turns, each with what those before it left. Of each turn there is what
was printed and the module that the source was lowered to. -/
inductive Sequence (settings : Settings) (fuel : Nat) :
    Left → List SourceFile → List (String × List UInt8) → Left → Prop where
  | nil {left : Left} : Sequence settings fuel left [] [] left
  | cons {left next last : Left} {source : SourceFile} {sources : List SourceFile} {text : String}
      {bytes : List UInt8} {turns : List (String × List UInt8)}
      (h : Succeeds settings fuel left source text bytes next)
      (hrest : Sequence settings fuel next sources turns last) :
      Sequence settings fuel left (source :: sources) ((text, bytes) :: turns) last

theorem Sequence.length_eq {left last : Left} {sources : List SourceFile}
    {turns : List (String × List UInt8)} (h : Sequence settings fuel left sources turns last) :
    turns.length = sources.length := by
  induction h with
  | nil => rfl
  | cons _ _ ih => exact congrArg (· + 1) ih

/-- What turns print. -/
def printedIn (turns : List (String × List UInt8)) : String := String.join (turns.map (·.1))

/-- The module of the last turn. -/
def latestOf (turns : List (String × List UInt8)) : Option (List UInt8) := turns.getLast?.map (·.2)

theorem printedIn_nil : printedIn [] = "" := rfl

theorem printedIn_cons (text : String) (bytes : List UInt8) (turns : List (String × List UInt8)) :
    printedIn ((text, bytes) :: turns) = text ++ printedIn turns :=
  String.join_cons

theorem latestOf_cons (text : String) (bytes : List UInt8) (turns : List (String × List UInt8)) :
    latestOf ((text, bytes) :: turns) = (latestOf turns).or (some bytes) := by
  unfold latestOf
  rw [List.getLast?_cons]
  cases turns.getLast? <;> rfl

/-! ## Turns on a desk -/

/-- The desk after something was printed. -/
def Desk.withText (d : Desk) (text : String) : Desk := { d with printed := d.printed ++ text }

theorem Desk.withText_withText (d : Desk) (text text' : String) :
    (d.withText text).withText text' = d.withText (text ++ text') := by
  simp only [withText, String.append_assoc]

theorem Desk.withText_empty (d : Desk) : d.withText "" = d := by
  simp only [withText, String.append_empty]

theorem Desk.bind_eq {α β : Type} {x : StateM Desk α} {f : α → StateM Desk β} {a : α} {d d' : Desk}
    (h : x d = (a, d')) : (x >>= f) d = f a d' := by
  have hbind : (x >>= f) d = f (x d).1 (x d).2 := rfl
  rw [hbind, h]

theorem takeTurns_done {d : Desk} {s s' : Session} {source : SourceFile} {text : String}
    (sources : List SourceFile)
    (h : (s.withClock d.clock).turn settings fuel source = (text, .done s')) :
    Desk.world.takeTurns settings fuel (source :: sources) s d =
      Desk.world.takeTurns settings fuel sources s' (d.withText text) := by
  have hclock : Desk.world.clock d = (d.clock, d) := rfl
  have hprint : Desk.world.print text d = ((), d.withText text) := rfl
  rw [World.takeTurns, Desk.bind_eq hclock, h]
  dsimp only
  rw [Desk.bind_eq hprint]

theorem takeTurns_stop {d : Desk} {s : Session} {source : SourceFile} {text : String} {turn : Turn}
    (sources : List SourceFile) (h : (s.withClock d.clock).turn settings fuel source = (text, turn))
    (hstop : ∀ s', turn ≠ .done s') :
    Desk.world.takeTurns settings fuel (source :: sources) s d = (turn, d.withText text) := by
  have hclock : Desk.world.clock d = (d.clock, d) := rfl
  have hprint : Desk.world.print text d = ((), d.withText text) := rfl
  rw [World.takeTurns, Desk.bind_eq hclock, h]
  dsimp only
  rw [Desk.bind_eq hprint]
  cases turn with
  | done s' => exact absurd rfl (hstop s')
  | failed f => rfl
  | unfinished => rfl

/-- How turns end, once those of some sources got through: no source is left, or the next one fails or
hangs. -/
inductive Halts (settings : Settings) (fuel : Nat) (left : Left) :
    List SourceFile → String → Turn → Prop where
  | done {s : Session} : Halts settings fuel left [] "" (.done s)
  | failed {source : SourceFile} {sources : List SourceFile} {text : String} {f : Failure}
      (h : Fails settings fuel left source text f) :
      Halts settings fuel left (source :: sources) text (.failed f)
  | unfinished {source : SourceFile} {sources : List SourceFile} {text : String}
      (h : Hangs settings fuel left source text) :
      Halts settings fuel left (source :: sources) text .unfinished

theorem Halts.not_succeeds {left next : Left} {source : SourceFile} {sources : List SourceFile}
    {text text' : String} {bytes : List UInt8} {turn : Turn}
    (h : Halts settings fuel left (source :: sources) text turn) :
    ¬Succeeds settings fuel left source text' bytes next := by
  intro hsucceeds
  cases h with
  | failed hfails => exact hsucceeds.not_fails hfails
  | unfinished hhangs => exact hsucceeds.not_hangs hhangs

/-- The turns of sources: some get through, and the rest is as `Halts` says. The induction is on the
sources, and what carries it is that the session is what the sources before it left. -/
theorem takeTurns_cases (fuel : Nat) {left : Left} {s : Session} {d : Desk}
    (hs : Session.Continues settings d.clock left s) (sources : List SourceFile) :
    ∃ done rest turns next last turn, sources = done ++ rest ∧
      Sequence settings fuel left done turns next ∧ Halts settings fuel next rest last turn ∧
      (∀ s', turn = .done s' → s'.latest = (latestOf turns).or s.latest) ∧
      Desk.world.takeTurns settings fuel sources s d =
        (turn, d.withText (printedIn turns ++ last)) := by
  induction sources generalizing left s d with
  | nil =>
    refine ⟨[], [], [], left, "", .done s, rfl, .nil, .done, ?_, ?_⟩
    · rintro s' ⟨⟩
      rfl
    · rw [printedIn_nil, String.append_empty, d.withText_empty]
      rfl
  | cons source sources ih =>
    rcases Session.turn_cases hs fuel source with
      ⟨text, bytes, next, s', hturn, hsucceeds, hs', hlatest⟩ | ⟨text, f, hturn, hfails⟩ |
      ⟨text, hturn, hhangs⟩ <;> rw [← hs.withClock] at hturn
    · obtain ⟨done, rest, turns, next', last, turn, rfl, hsequence, hhalts, hlast, hrun⟩ :=
        ih (d := d.withText text) hs'
      refine ⟨source :: done, rest, (text, bytes) :: turns, next', last, turn, rfl,
        .cons hsucceeds hsequence, hhalts, fun s'' hs'' => ?_, ?_⟩
      · rw [hlast s'' hs'', hlatest, latestOf_cons]
        cases latestOf turns <;> rfl
      · rw [takeTurns_done _ hturn, hrun, Desk.withText_withText, printedIn_cons, String.append_assoc]
    · refine ⟨[], source :: sources, [], left, text, .failed f, rfl, .nil, .failed hfails, ?_, ?_⟩
      · rintro s' ⟨⟩
      · rw [takeTurns_stop _ hturn (by simp), printedIn_nil, String.empty_append]
    · refine ⟨[], source :: sources, [], left, text, .unfinished, rfl, .nil, .unfinished hhangs, ?_, ?_⟩
      · rintro s' ⟨⟩
      · rw [takeTurns_stop _ hturn (by simp), printedIn_nil, String.empty_append]

/-! ## Calls -/

/-- A desk on which nothing was done but reading and complaining. -/
structure Desk.Read (d d' : Desk) : Prop where
  disk : d'.disk = d.disk
  clock : d'.clock = d.clock
  printed : d'.printed = d.printed

/-- An action that leaves files, clock and output as they are. -/
def Reads {α : Type} (x : StateM Desk α) : Prop := ∀ d : Desk, d.Read (x d).2

namespace Reads

variable {α β : Type}

theorem pure (a : α) : Reads (Pure.pure a) := fun _ => ⟨rfl, rfl, rfl⟩

theorem bind {x : StateM Desk α} {f : α → StateM Desk β} (hx : Reads x) (hf : ∀ a, Reads (f a)) :
    Reads (x >>= f) := by
  intro d
  have hfirst := hx d
  have hrest := hf (x d).1 (x d).2
  exact ⟨hrest.disk.trans hfirst.disk, hrest.clock.trans hfirst.clock, hrest.printed.trans hfirst.printed⟩

theorem look (path : String) : Reads (Desk.world.look path) := fun _ => ⟨rfl, rfl, rfl⟩

theorem complain (text : String) : Reads (Desk.world.complain text) := fun _ => ⟨rfl, rfl, rfl⟩

theorem readInput : Reads Desk.world.readInput := fun _ => ⟨rfl, rfl, rfl⟩

theorem readInputs (paths : List String) : Reads (Desk.world.readInputs paths) := by
  induction paths with
  | nil => exact pure _
  | cons path paths ih =>
    refine bind (look path) fun found => ?_
    dsimp only
    split
    · exact pure _
    split
    · refine bind (complain _) fun _ => bind ih fun result => ?_
      split <;> exact pure _
    · refine bind ih fun result => ?_
      split <;> exact pure _

/-- Sources are read before anything is printed or written. -/
theorem readSources (settings : Settings) : Reads (Desk.world.readSources settings) := by
  unfold World.readSources
  split
  · refine bind readInput fun bytes => ?_
    split <;> exact pure _
  · exact readInputs _

end Reads

theorem writeFile_cases (path : String) (bytes : List UInt8) (d : Desk) :
    (∃ disk', d.disk.writeFile path bytes = .ok disk' ∧
      Desk.world.writeFile path bytes d = (.ok (), { d with disk := disk' })) ∨
    ∃ fault, d.disk.writeFile path bytes = .error fault ∧
      Desk.world.writeFile path bytes d = (.error fault, d) := by
  dsimp only [Desk.world]
  cases d.disk.writeFile path bytes with
  | error fault => exact .inr ⟨fault, rfl, rfl⟩
  | ok disk' => exact .inl ⟨disk', rfl, rfl⟩

section Modules

variable {d : Desk} {path : String} {made : Disk}

theorem makeDirectories_eq {result : Except FileFault Unit}
    (h : d.disk.makeDirectories path = (result, made)) :
    Desk.world.makeDirectories path d = (result, { d with disk := made }) := by
  dsimp only [Desk.world]
  rw [h]

theorem writeModule_of_error {fault : FileFault} (bytes : List UInt8)
    (hparent : d.disk.makeParent path = (.error fault, made)) :
    ∃ f, Desk.world.writeModule path bytes d = (.error f, { d with disk := made }) := by
  unfold Disk.makeParent at hparent
  unfold World.writeModule
  dsimp only at hparent ⊢
  split at hparent
  · cases hparent
  next hsome =>
    rw [if_neg hsome, Desk.bind_eq (makeDirectories_eq hparent)]
    exact ⟨_, rfl⟩

/-- Once the directory is made that holds a module, the file is all that is left to write. -/
theorem writeModule_of_ok (bytes : List UInt8)
    (hparent : d.disk.makeParent path = (.ok (), made)) :
    (∃ disk', made.writeFile path bytes = .ok disk' ∧
      Desk.world.writeModule path bytes d = (.ok (), { d with disk := disk' })) ∨
    ∃ f fault, made.writeFile path bytes = .error fault ∧
      Desk.world.writeModule path bytes d = (.error f, { d with disk := made }) := by
  unfold Disk.makeParent at hparent
  unfold World.writeModule
  dsimp only at hparent ⊢
  split at hparent
  case' isTrue hempty =>
    have hpure : (pure (.ok ()) : StateM Desk (Except FileFault Unit)) d =
        (.ok (), { d with disk := made }) := by
      obtain ⟨-, rfl⟩ := Prod.mk.inj hparent
      rfl
    rw [if_pos hempty, Desk.bind_eq hpure]
  case' isFalse hsome => rw [if_neg hsome, Desk.bind_eq (makeDirectories_eq hparent)]
  all_goals
    dsimp only
    rcases writeFile_cases path bytes { d with disk := made } with
      ⟨disk', hfile, hwrite⟩ | ⟨fault, hfile, hwrite⟩ <;> rw [Desk.bind_eq hwrite]
    · exact .inl ⟨disk', hfile, rfl⟩
    · exact .inr ⟨_, fault, hfile, rfl⟩

end Modules

/-- A module is written to a path if that is possible. Otherwise there may be new directories. -/
theorem writeModule_cases (path : String) (bytes : List UInt8) (d : Desk) :
    (∃ disk', d.disk.Stores path bytes disk' ∧
      Desk.world.writeModule path bytes d = (.ok (), { d with disk := disk' })) ∨
    ∃ f, (¬∃ disk', d.disk.Stores path bytes disk') ∧
      Desk.world.writeModule path bytes d =
        (.error f, { d with disk := (d.disk.makeParent path).2 }) := by
  cases hparent : d.disk.makeParent path with
  | mk result made =>
    cases result with
    | error fault =>
      obtain ⟨f, hwrite⟩ := writeModule_of_error bytes hparent
      refine .inr ⟨f, ?_, hwrite⟩
      rintro ⟨disk', made', hmade', -⟩
      cases hparent.symm.trans hmade'
    | ok =>
      rcases writeModule_of_ok bytes hparent with ⟨disk', hfile, hwrite⟩ | ⟨f, fault, hfile, hwrite⟩
      · exact .inl ⟨disk', ⟨made, hparent, hfile⟩, hwrite⟩
      · refine .inr ⟨f, ?_, hwrite⟩
        rintro ⟨disk', made', hmade', hfile'⟩
        obtain ⟨-, rfl⟩ := Prod.mk.inj (hparent.symm.trans hmade')
        cases hfile.symm.trans hfile'

/-- What becomes of the module that is asked for, given that of the last source: how the call ends, and
the disk that it leaves. -/
inductive Delivers (settings : Settings) (disk : Disk) (latest : Option (List UInt8)) :
    Exit → Disk → Prop where
  | unasked (houtput : settings.output? = none) : Delivers settings disk latest .success disk
  | nothing {path : String} (houtput : settings.output? = some path) (hlatest : latest = none) :
      Delivers settings disk latest .failure disk
  | stored {path : String} {bytes : List UInt8} {disk' : Disk} (houtput : settings.output? = some path)
      (hlatest : latest = some bytes) (hstores : disk.Stores path bytes disk')
      (hfound : disk'.look path = .ok (.file bytes)) : Delivers settings disk latest .success disk'
  | refused {path : String} {bytes : List UInt8} (houtput : settings.output? = some path)
      (hlatest : latest = some bytes) (hrefused : ¬∃ disk', disk.Stores path bytes disk') :
      Delivers settings disk latest .failure (disk.makeParent path).2

theorem Delivers.code_eq_zero {disk disk' : Disk} {latest : Option (List UInt8)} {exit : Exit}
    (h : Delivers settings disk latest exit disk') :
    exit.code = 0 ↔ ∀ path, settings.output? = some path →
      ∃ bytes disk', latest = some bytes ∧ disk.Stores path bytes disk' := by
  cases h with
  | unasked houtput =>
    refine ⟨fun _ path hpath => ?_, fun _ => rfl⟩
    cases houtput.symm.trans hpath
  | nothing houtput hlatest =>
    refine ⟨fun hcode => absurd hcode (by decide), fun hall => ?_⟩
    obtain ⟨bytes, _, hbytes, -⟩ := hall _ houtput
    cases hlatest.symm.trans hbytes
  | stored houtput hlatest hstores =>
    refine ⟨fun _ path hpath => ?_, fun _ => rfl⟩
    obtain rfl := Option.some.inj (houtput.symm.trans hpath)
    exact ⟨_, _, hlatest, hstores⟩
  | refused houtput hlatest hrefused =>
    refine ⟨fun hcode => absurd hcode (by decide), fun hall => ?_⟩
    obtain ⟨bytes, disk', hbytes, hstores⟩ := hall _ houtput
    obtain rfl := Option.some.inj (hlatest.symm.trans hbytes)
    exact absurd ⟨disk', hstores⟩ hrefused

theorem writeLatest_cases (settings : Settings) (s : Session) (d : Desk) :
    ∃ exit disk', Delivers settings d.disk s.latest exit disk' ∧
      ((exit = .success ∧ Desk.world.writeLatest settings s d = (.ok (), { d with disk := disk' })) ∨
        exit = .failure ∧ ∃ f, Desk.world.writeLatest settings s d =
          (.error f, { d with disk := disk' })) := by
  unfold World.writeLatest
  cases houtput : settings.output? with
  | none => exact ⟨.success, d.disk, .unasked houtput, .inl ⟨rfl, rfl⟩⟩
  | some path =>
    cases hlatest : s.latest with
    | none => exact ⟨.failure, d.disk, .nothing houtput rfl, .inr ⟨rfl, _, rfl⟩⟩
    | some bytes =>
      rcases writeModule_cases path bytes d with ⟨disk', hstores, hwrite⟩ | ⟨f, hrefused, hwrite⟩
      · exact ⟨.success, disk', .stored houtput rfl hstores hstores.look, .inl ⟨rfl, hwrite⟩⟩
      · exact ⟨.failure, _, .refused houtput rfl hrefused, .inr ⟨rfl, f, hwrite⟩⟩

/-- What is done on a desk with sources that were read. -/
theorem go_eq {d d₁ : Desk} {sources : List SourceFile} {pipeline : Pipeline}
    (hread : Desk.world.readSources settings d = (.ok sources, d₁))
    (hnew : Pipeline.new settings.stampOptions d₁.clock = .ok pipeline) :
    Desk.world.go fuel settings d =
      match Desk.world.takeTurns settings fuel sources { pipeline } d₁ with
      | (.unfinished, d₂) => (.unfinished, d₂)
      | (.failed f, d₂) => Desk.world.fail f d₂
      | (.done s, d₂) =>
        match Desk.world.writeLatest settings s d₂ with
        | (.error f, d₃) => Desk.world.fail f d₃
        | (.ok (), d₃) => (.success, d₃) := by
  have hclock : Desk.world.clock d₁ = (d₁.clock, d₁) := rfl
  unfold World.go
  rw [Desk.bind_eq hread]
  dsimp only
  rw [Desk.bind_eq hclock, hnew]
  dsimp only
  cases hturns : Desk.world.takeTurns settings fuel sources { pipeline } d₁ with
  | mk turn d₂ =>
    rw [Desk.bind_eq hturns]
    cases turn with
    | unfinished => rfl
    | failed f => rfl
    | done s =>
      dsimp only
      cases hwrite : Desk.world.writeLatest settings s d₂ with
      | mk result d₃ =>
        rw [Desk.bind_eq hwrite]
        cases result <;> rfl

/-- Once all sources got through their turns, a call ends as its module is delivered. -/
theorem go_done {d d₁ d₂ : Desk} {sources : List SourceFile} {pipeline : Pipeline} {s : Session}
    (hread : Desk.world.readSources settings d = (.ok sources, d₁))
    (hnew : Pipeline.new settings.stampOptions d₁.clock = .ok pipeline)
    (hturns : Desk.world.takeTurns settings fuel sources { pipeline } d₁ = (.done s, d₂)) :
    ∃ exit d', Desk.world.go fuel settings d = (exit, d') ∧
      Delivers settings d₂.disk s.latest exit d'.disk ∧ d'.printed = d₂.printed := by
  rw [go_eq hread hnew, hturns]
  dsimp only
  obtain ⟨exit, disk', hdelivers, ⟨rfl, hwrite⟩ | ⟨rfl, f, hwrite⟩⟩ := writeLatest_cases settings s d₂
  · rw [hwrite]
    exact ⟨_, _, rfl, hdelivers, rfl⟩
  · rw [hwrite]
    exact ⟨_, _, rfl, hdelivers, rfl⟩

/-- The session that a call begins with. -/
theorem Session.continues_of_new {clock : Clock} {pipeline : Pipeline}
    (h : Pipeline.new settings.stampOptions clock = .ok pipeline) :
    Session.Continues settings clock { stamper := pipeline.stamper } { pipeline } := by
  obtain ⟨format, -, rfl⟩ := Pipeline.new_eq_ok h
  exact ⟨rfl, rfl, rfl, rfl⟩

/-- A call of the program, once its sources are read and its pipeline is made: the sources get through
their turns one after the other, up to the first that does not or up to the last. What is printed is
what they print in these turns. If one of them does not get through, nothing is written. Otherwise the
module of the last source is delivered as the settings ask for, and only then the exit status is zero. -/
theorem Desk.run_sequence {d d₁ d' : Desk} {args : List String} {sources : List SourceFile}
    {pipeline : Pipeline} {exit : Exit} (hargs : request args = .go settings)
    (hread : Desk.world.readSources settings d = (.ok sources, d₁))
    (hnew : Pipeline.new settings.stampOptions d.clock = .ok pipeline)
    (hrun : d.run fuel args = (exit, d')) :
    ∃ done rest turns left last, sources = done ++ rest ∧
      Sequence settings fuel { stamper := pipeline.stamper } done turns left ∧
      d'.printed = d.printed ++ printedIn turns ++ last ∧
      ((∃ source others f, rest = source :: others ∧ Fails settings fuel left source last f ∧
          exit = .failure ∧ d'.disk = d.disk ∧ d'.complaints = d₁.complaints ++ f.text) ∨
        (∃ source others, rest = source :: others ∧ Hangs settings fuel left source last ∧
          exit = .unfinished ∧ d'.disk = d.disk) ∨
        (rest = [] ∧ last = "" ∧ Delivers settings d.disk (latestOf turns) exit d'.disk)) ∧
      (∀ source others, rest = source :: others →
        ∀ text bytes next, ¬Succeeds settings fuel left source text bytes next) ∧
      (exit.code = 0 ↔ rest = [] ∧ ∀ path, settings.output? = some path →
        sources ≠ [] ∧ ∃ bytes disk', latestOf turns = some bytes ∧ d.disk.Stores path bytes disk') := by
  have hquiet : d.Read d₁ := by
    have h := Reads.readSources settings d
    rw [hread] at h
    exact h
  rw [← hquiet.clock] at hnew
  obtain ⟨done, rest, turns, left, last, turn, rfl, hsequence, hhalts, hlatest, hturns⟩ :=
    takeTurns_cases fuel (Session.continues_of_new hnew) sources
  have hgo : Desk.world.go fuel settings d = (exit, d') := by
    rw [← hrun, Desk.run, World.run, hargs]
    rfl
  have hprinted (text : String) :
      (d₁.withText (printedIn turns ++ text)).printed = d.printed ++ printedIn turns ++ text := by
    rw [Desk.withText, hquiet.printed, String.append_assoc]
  have hfirst (source : SourceFile) (others : List SourceFile) (hrest : rest = source :: others) :
      ∀ text bytes next, ¬Succeeds settings fuel left source text bytes next := by
    subst hrest
    exact fun _ _ _ => hhalts.not_succeeds
  refine ⟨done, rest, turns, left, last, rfl, hsequence, ?_⟩
  cases hhalts with
  | @failed source others text f hfails =>
    rw [go_eq hread hnew, hturns] at hgo
    obtain ⟨rfl, rfl⟩ := Prod.mk.inj hgo
    refine ⟨hprinted last, .inl ⟨source, others, f, rfl, hfails, rfl, hquiet.disk, rfl⟩, hfirst, ?_⟩
    exact ⟨fun hcode => absurd hcode (by decide), fun h => absurd h.1 (by simp)⟩
  | @unfinished source others text hhangs =>
    rw [go_eq hread hnew, hturns] at hgo
    obtain ⟨rfl, rfl⟩ := Prod.mk.inj hgo
    refine ⟨hprinted last, .inr (.inl ⟨source, others, rfl, hhangs, rfl, hquiet.disk⟩), hfirst, ?_⟩
    exact ⟨fun hcode => absurd hcode (by decide), fun h => absurd h.1 (by simp)⟩
  | @done s =>
    have hmodule : s.latest = latestOf turns := by
      rw [hlatest s rfl]
      exact Option.or_none
    have hnonempty {bytes : List UInt8} (hbytes : latestOf turns = some bytes) : done ++ [] ≠ [] := by
      rw [List.append_nil, ← List.length_pos_iff, ← hsequence.length_eq, List.length_pos_iff]
      rintro rfl
      cases hbytes
    obtain ⟨exit', d'', hgo', hdelivers, htext⟩ := go_done hread hnew hturns
    obtain ⟨rfl, rfl⟩ := Prod.mk.inj (hgo'.symm.trans hgo)
    rw [hmodule, show (d₁.withText (printedIn turns ++ "")).disk = d.disk from hquiet.disk] at hdelivers
    refine ⟨htext.trans (hprinted ""), .inr (.inr ⟨rfl, rfl, hdelivers⟩), hfirst, ?_⟩
    rw [hdelivers.code_eq_zero]
    constructor
    · intro hall
      refine ⟨rfl, fun path hpath => ?_⟩
      obtain ⟨bytes, disk', hbytes, hstores⟩ := hall path hpath
      exact ⟨hnonempty hbytes, bytes, disk', hbytes, hstores⟩
    · rintro ⟨-, hall⟩ path hpath
      exact (hall path hpath).2

/-- A desk with three sources, where a second goes by between two looks at the clock. The second source
faults once it has printed the global of the first. -/
def faultingDesk : Desk where
  clock := ⟨fun n => ⟨n, 0⟩⟩
  disk := { root := .directory (
    [("a", "x = 3\nprint(x)\n"), ("b", "print(x + 1)\nx = 1 / 0\n"), ("c", "print(7)\n")].map
      fun (name, source) => (name, .file source.toUTF8.data.toList)) }

/-- Arguments that ask for the module of the third source. -/
def faultingArgs : List String := ["--stamp-format", "%S", "--no-report", "-o", "m", "a", "b", "c"]

/-- What they ask for. -/
def faultingSettings : Settings where
  inputs := ["a", "b", "c"]
  pattern? := "%S"
  output? := "m"
  noReport := true

/-- What is written to the error output in the end. -/
def faultingComplaint : String :=
  "Error: failed to run b\n\nCaused by:\n    integer divide by zero\n"

theorem Fails.name_ne_of_faultingComplaint {left : Left} {source : SourceFile} {text : String}
    {f : Failure} (h : Fails settings fuel left source text f) (htext : f.text = faultingComplaint) :
    source.name ≠ "a" ∧ source.name ≠ "c" := by
  obtain ⟨behind, hbehind⟩ := f.text_eq
  have hline := congrArg String.toList (htext.symm.trans hbehind)
  constructor
  all_goals
    intro hname
    rcases h.context_eq with hcontext | hcontext
    all_goals
      rw [hcontext, hname] at hline
      simp [faultingComplaint] at hline

/-- Only the second of the three sources has another name. -/
theorem eq_singleton_of_names {done others : List SourceFile} {source : SourceFile}
    (hnames : (done ++ source :: others).map (·.name) = ["a", "b", "c"])
    (hne_a : source.name ≠ "a") (hne_c : source.name ≠ "c") :
    ∃ first third, done = [first] ∧ others = [third] := by
  match done, others, hnames with
  | [first], [third], _ => exact ⟨first, third, rfl, rfl⟩
  | [], _, hnames => exact absurd (List.cons.inj hnames).1 hne_a
  | [_, _], _, hnames =>
    have hname := (List.cons.inj (List.cons.inj (List.cons.inj hnames).2).2).1
    exact absurd hname hne_c
  | [_], [], hnames => simp at hnames
  | [_], _ :: _ :: _, hnames => simp at hnames
  | _ :: _ :: _ :: _, _, hnames => simp at hnames

/-- The first source gets through, the second one fails in its run, and the third one has no turn. What
the second one printed before its fault was printed, and nothing was written. -/
theorem run_sequence_faultingDesk : ∃ first second third d₁ pipeline d',
    request faultingArgs = .go faultingSettings ∧
    Desk.world.readSources faultingSettings faultingDesk = (.ok [first, second, third], d₁) ∧
    Pipeline.new faultingSettings.stampOptions faultingDesk.clock = .ok pipeline ∧
    faultingDesk.run 1000 faultingArgs = (.failure, d') ∧ Exit.failure.code ≠ 0 ∧
    ∃ text bytes left last f,
      Succeeds faultingSettings 1000 { stamper := pipeline.stamper } first text bytes left ∧
      Fails faultingSettings 1000 left second last f ∧ f.text = faultingComplaint ∧
      text ++ last = "00 3\n01 4\n" ∧
      d'.printed = "00 3\n01 4\n" ∧ d'.complaints = faultingComplaint ∧ d'.disk = faultingDesk.disk := by
  have hargs : request faultingArgs = .go faultingSettings := by decide +kernel
  have hloaded : (Desk.world.readSources faultingSettings faultingDesk).1.toOption.map
      (·.map (·.name)) = some ["a", "b", "c"] := by decide +kernel
  have hmade : (Pipeline.new faultingSettings.stampOptions faultingDesk.clock).toOption.isSome := by
    decide +kernel
  have hends : (faultingDesk.run 1000 faultingArgs).1 = .failure ∧
      (faultingDesk.run 1000 faultingArgs).2.printed = "00 3\n01 4\n" ∧
      (faultingDesk.run 1000 faultingArgs).2.complaints = faultingComplaint := by decide +kernel
  have hquiet : (Desk.world.readSources faultingSettings faultingDesk).2.complaints = "" := by
    decide +kernel
  cases hread : Desk.world.readSources faultingSettings faultingDesk with
  | mk result d₁ =>
  cases hrun : faultingDesk.run 1000 faultingArgs with
  | mk exit d' =>
  rw [hread] at hloaded hquiet
  rw [hrun] at hends
  obtain ⟨rfl, hprinted, hcomplaints⟩ := hends
  cases result with
  | error f => cases hloaded
  | ok sources =>
    cases hnew : Pipeline.new faultingSettings.stampOptions faultingDesk.clock with
    | error e =>
      rw [hnew] at hmade
      cases hmade
    | ok pipeline =>
      have hnames : sources.map (·.name) = ["a", "b", "c"] := Option.some.inj hloaded
      obtain ⟨done, rest, turns, left, last, rfl, hsequence, htext, hends, -, hcode⟩ :=
        Desk.run_sequence hargs hread hnew hrun
      rcases hends with ⟨source, others, f, rfl, hfails, -, hdisk, hfailure⟩ | ⟨_, _, -, -, hexit, -⟩ |
        ⟨rfl, -, -⟩
      · have hf : f.text = faultingComplaint := by
          rw [← hcomplaints, hfailure, hquiet, String.empty_append]
        obtain ⟨hne_a, hne_c⟩ := hfails.name_ne_of_faultingComplaint hf
        -- the source that fails is neither the first nor the third one
        obtain ⟨first, third, rfl, rfl⟩ := eq_singleton_of_names hnames hne_a hne_c
        cases hsequence with
        | @cons _ next _ _ _ text bytes _ hsucceeds hrest =>
          cases hrest
          have htexts : text ++ last = "00 3\n01 4\n" := by
            rw [← hprinted, htext]
            rfl
          exact ⟨first, source, third, d₁, pipeline, d', hargs, rfl, rfl, rfl, by decide, text, bytes,
            left, last, f, hsucceeds, hfails, hf, htexts, hprinted, hcomplaints, hdisk⟩
      · cases hexit
      · have hnonempty : done ++ [] ≠ [] := by
          intro hempty
          rw [hempty] at hnames
          cases hnames
        cases hlatest : latestOf turns with
        | none =>
          obtain rfl : turns = [] := by simpa [latestOf] using hlatest
          cases hsequence
          exact absurd rfl hnonempty
        | some bytes =>
          -- every module could be stored
          have hzero : Exit.failure.code = 0 := by
            refine hcode.2 ⟨rfl, fun path hpath => ?_⟩
            obtain rfl : "m" = path := Option.some.inj hpath
            exact ⟨hnonempty, bytes, _, hlatest, _, rfl, rfl⟩
          exact absurd hzero (by decide)

end CommandLine

end Stampline

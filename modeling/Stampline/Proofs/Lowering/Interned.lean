import Stampline.Proofs.Evaluation.Faults
import Stampline.Proofs.Lowering.Correct
import Stampline.Proofs.Lowering.Layout
import Stampline.Proofs.Lowering.Uses
import Stampline.Proofs.Wasm.Memories

/-!
# Texts that reach the host

Every text that a program uses is put into the data of its module once, and the code refers to it by two
constants. Whatever else is put there before or behind it, and from whatever function, the two constants
of a call say where the text of that call lies. Nothing in the code of the module writes to the memory,
so that the host reads the text that stands in the tree, at whatever point of a run it does so.
-/

namespace Stampline

open Wasm (Func Instance Memory Module SparesMemories Structured constantsOf mapInstrs textBytes)

/-! ## What is shown of a module -/

/-- The bytes of a text lie in data from a place on. -/
structure LiesAt (data : List UInt8) (start size : Nat) (text : String) : Prop where
  within : start + size ≤ data.length
  bytes : (data.drop start).take size = textBytes text

/-- A call is one for a use of a text: of the same function, with two constants that say where the text
lies in data. -/
def TextCall.Serves (data : List UInt8) (call : TextCall UInt32) (use : TextUse) : Prop :=
  call.func = use.func ∧ ∃ start size : UInt32, call.operands = [size, start] ∧
    LiesAt data start.toNat size.toNat use.text

/-- The calls of code that take a text are those for some uses, in the same order, and no constant is
left over. -/
def Wasm.Func.Serves (data : List UInt8) (g : Func UInt32) (uses : List TextUse) : Prop :=
  ∃ calls, textCallsOf [] g.body = (calls, []) ∧
    List.Forall₂ (TextCall.Serves data) calls uses

/-- All bytes of the segments of a module. -/
def Wasm.Module.dataBytes (m : Module) : List UInt8 := m.data.flatMap (·.bytes)

/-- An instance that has the given memories at some point has them from there on, and the host reads
the texts from them that lie in data. -/
structure Wasm.Instance.KeepsTexts (inst : Instance) (memories : Array Memory) (data : List UInt8) :
    Prop where
  /-- No code that leaves memories alone changes them, and no function does. -/
  exec : ∀ fuel room is c, SparesMemories is → c.state.memories = memories →
    (Wasm.execAll inst fuel room is c).HasMemories memories
  invoke : ∀ fuel room func c, c.state.memories = memories →
    (Wasm.invoke inst fuel room func c).HasMemories memories
  /-- What the host reads. -/
  read : ∀ s, s.memories = memories → ∃ memory, inst.hostMemory s = some memory ∧
    ∀ start size text, LiesAt data start size text → memory.readText start size = .ok text

/-- The texts that a program uses are intact in a module. -/
structure Program.TextsIntact (p : Program) (m : Module) : Prop where
  /-- The data lies in the only memory from its beginning on, -/
  segments : m.data.length ≤ 1 ∧ ∀ s ∈ m.data, s.mode = .active 0 [.const32 0]
  /-- and not beyond it. -/
  memory : ∃ limits, m.memories = [limits] ∧
    m.dataBytes.length ≤ limits.min * Wasm.pageSize
  /-- There is a function for every definition and one for the program, -/
  length : m.funcs.length = p.defined.length + 1
  /-- and each of them has the calls for the texts that are used there. -/
  function : ∀ (i : Nat) (d : Definition), p.defined[i]? = some d → ∃ g, m.funcs[i]? = some g ∧
    g.Serves m.dataBytes (textUsesIn (d.params ++ targetsIn d.body) d.around d.body)
  program : ∃ g, m.funcs[p.defined.length]? = some g ∧
    g.Serves m.dataBytes (textUsesIn [] [p] p)
  /-- None of them writes to a memory. -/
  spares : ∀ g ∈ m.funcs, SparesMemories g.body
  /-- All this carries over to instances. -/
  loaded : ∀ env, ∃ inst s, m.instantiate env = some (inst, s) ∧
    inst.KeepsTexts s.memories m.dataBytes

/-! ## Constants -/

namespace TextPool

variable {pool : TextPool}

theorem liesAt_resolve {text : String} (h : text ∈ pool.texts)
    (hsize : pool.bytes.length < 4294967296) :
    LiesAt pool.bytes (pool.resolve (.offset text)).toNat (pool.resolve (.size text)).toNat text := by
  obtain ⟨hoffset, hlength⟩ := toNat_resolve h hsize
  rw [hoffset, hlength]
  exact ⟨offset_add_size_le h, take_drop_bytes h⟩

end TextPool

/-- A text that is used is referred to by the constants of the code. -/
theorem MakesUses.mem_constants {code : List Code} {uses : List TextUse} (h : MakesUses code uses)
    {use : TextUse} (huse : use ∈ uses) : TextPart.offset use.text ∈ constantsOf code := by
  have hperm := perm_textCallsOf [] code
  rw [h []] at hperm
  have hcall : use.call ∈ uses.map TextUse.call := List.mem_map_of_mem huse
  have hoperand : TextPart.offset use.text ∈ (uses.map TextUse.call).flatMap (·.operands) :=
    List.mem_flatMap.2 ⟨_, hcall, by simp [TextUse.call]⟩
  simpa using hperm.mem_iff.1 (List.mem_append_left _ hoperand)

variable {p : Program} {code : List (Func TextPart)}

/-- Where all the texts of a program lie, the constants of a function say where its texts lie. -/
theorem MakesUses.serves {g : Func TextPart} (hg : g ∈ code) {uses : List TextUse}
    (h : MakesUses g.body uses) (hdata : (poolOf code).bytes.length < 4294967296) :
    (g.map (poolOf code).resolve).Serves (poolOf code).bytes uses := by
  refine ⟨(uses.map TextUse.call).map (TextCall.map (poolOf code).resolve), ?_, ?_⟩
  · have hmap := textCallsOf_map (poolOf code).resolve [] g.body
    rw [h []] at hmap
    exact hmap
  · rw [List.map_map, List.forall₂_map_left_iff, List.forall₂_same]
    intro use huse
    have hmem : use.text ∈ (poolOf code).texts :=
      TextPool.mem_ofCode (mem_constantsOf_flatMap hg (h.mem_constants huse))
    exact ⟨rfl, _, _, rfl, TextPool.liesAt_resolve hmem hdata⟩

/-! ## Functions of the module -/

theorem sees_function {f : Function} {d : Definition} (hd : SameDefinition p.defined f d) :
    Site.Sees ⟨p.functions, f.scope, f.locals, true⟩ (d.params ++ targetsIn d.body) d.around where
  locals id := by
    rw [f.mem_locals, List.mem_append, ← hd.params, ← hd.body]
  scope := hd.numbered.knows

theorem sees_program (p : Program) : Site.Sees ⟨p.functions, p.scope, [], false⟩ [] [p] where
  locals _ := Iff.rfl
  scope := p.numbered.knows

/-- The code of a function makes the uses of the body of its definition. -/
theorem Function.makesUses {f : Function} {d : Definition} (hd : SameDefinition p.defined f d)
    {body : List Code} {slots : Nat} (hemit : f.emit p.functions = .ok (body, slots)) :
    MakesUses body (textUsesIn (d.params ++ targetsIn d.body) d.around d.body) := by
  obtain ⟨body, hbody, rfl⟩ := Function.emit_eq_ok hemit
  rw [← hd.body]
  have huses := hbody.makesUses (sees_function hd)
  rw [← hd.body] at huses
  exact huses.before (.skip fun _ => rfl)

theorem structured_code (h : p.HasCode code) :
    ∀ g ∈ code, ∃ slots funcs, Structured slots funcs g.body :=
  h.forall (fun _ _ _ _ hemit => ⟨_, _, Function.structured_emit hemit⟩)
    fun _ _ hemit => ⟨_, _, Program.structured_emit hemit⟩

theorem sparesMemories_resolved (h : p.HasCode code) {g : Func TextPart} (hg : g ∈ code)
    (resolve : TextPart → UInt32) : SparesMemories (mapInstrs resolve g.body) := by
  obtain ⟨slots, funcs, hstructured⟩ := structured_code h g hg
  exact (hstructured.map resolve).sparesMemories

theorem serves_function (h : p.HasCode code) (hdata : (poolOf code).bytes.length < 4294967296)
    {i : Nat} {d : Definition} (hd : p.defined[i]? = some d) :
    ∃ g, (assemble p.arities code).funcs[i]? = some g ∧ g.Serves (poolOf code).bytes
      (textUsesIn (d.params ++ targetsIn d.body) d.around d.body) := by
  obtain ⟨f, -, hsame, body, slots, hemit, hcode⟩ := h.definition hd
  have huses := Function.makesUses hsame hemit
  have hg := List.mem_of_getElem? hcode
  exact ⟨_, by rw [assemble, List.getElem?_map, hcode]; rfl, huses.serves hg hdata⟩

theorem serves_program (h : p.HasCode code) (hdata : (poolOf code).bytes.length < 4294967296) :
    ∃ g, (assemble p.arities code).funcs[p.defined.length]? = some g ∧
      g.Serves (poolOf code).bytes (textUsesIn [] [p] p) := by
  obtain ⟨body, slots, hemit, hcode⟩ := h.run
  have huses := (Program.emit_eq_ok hemit).makesUses (sees_program p)
  have hg := List.mem_of_getElem? hcode
  refine ⟨_, by rw [p.length_defined, assemble, List.getElem?_map, hcode]; rfl, ?_⟩
  exact huses.serves hg hdata

/-! ## Instances of the module -/

theorem keepsTexts_instanceOf (h : p.HasCode code) (env : Environment) :
    (instanceOf p code).KeepsTexts (stateOf code env).memories (poolOf code).bytes := by
  have hspares : ∀ (func : Nat) type locals body,
      (instanceOf p code).callees[func]? = some (.code type locals body) →
        Wasm.SparesMemories body := by
    intro func type locals body hcallee
    have hmem : Wasm.Callee.code type locals body ∈ loadedCallees p code :=
      List.mem_of_getElem? ((List.getElem?_toArray ..).symm.trans hcallee)
    rcases List.mem_append.1 hmem with hmem | hmem
    · obtain ⟨f, -, hf⟩ := List.mem_map.1 hmem
      cases hf
    · obtain ⟨g, hg, hcode⟩ := List.mem_map.1 hmem
      obtain ⟨-, -, rfl⟩ := Wasm.Callee.code.inj hcode
      exact sparesMemories_resolved h hg _
  have hupholds : Wasm.Upholds (instanceOf p code) Wasm.Instr.SparesMemories
      (fun s => s.memories = (stateOf code env).memories) (fun _ => True) :=
    Wasm.upholds_memories hspares
  refine ⟨?_, ?_, ?_⟩
  · intro fuel room is c his hc
    exact (hupholds.within fuel).execAll room is c his hc
  · intro fuel room func c hc
    exact (hupholds.within fuel).invoke room func c hc
  · intro s hs
    refine ⟨(poolOf code).memory, ?_, ?_⟩
    · show s.memories[0]? = _
      rw [hs]
      rfl
    · intro start size text hlies
      exact TextPool.readText_memory_of_bytes hlies.within hlies.bytes

theorem textsIntact_assemble (h : p.HasCode code)
    (hdata : (poolOf code).bytes.length < 4294967296) :
    p.TextsIntact (assemble p.arities code) := by
  have hbytes : (assemble p.arities code).dataBytes = (poolOf code).bytes := data_assemble
  have hfit : (poolOf code).bytes.length ≤ (poolOf code).limits.min * Wasm.pageSize :=
    TextPool.length_bytes_le_size _
  refine ⟨⟨?_, ?_⟩, ?_, ?_, ?_, ?_, ?_, ?_⟩
  · show (poolOf code).segments.length ≤ 1
    unfold TextPool.segments
    split <;> simp
  · intro s hs
    exact (segments_fit (poolOf code) s hs).1
  · exact ⟨_, rfl, hbytes ▸ hfit⟩
  · rw [p.length_defined, ← h.length]
    exact List.length_map _
  · rw [hbytes]
    intro i d hd
    exact serves_function h hdata hd
  · rw [hbytes]
    exact serves_program h hdata
  · intro g hg
    obtain ⟨g, hcode, rfl⟩ := List.mem_map.1 hg
    exact sparesMemories_resolved h hcode _
  · rw [hbytes]
    intro env
    exact ⟨_, _, instantiate_assemble h env, keepsTexts_instanceOf h env⟩

/-! ## Runs -/

/-- The faults of reading a text from the memory. -/
def Fault.OfReading : Fault → Prop
  | .noMemory | .textOutOfBounds | .malformedText => True
  | _ => False

theorem Fault.OfMeaning.not_ofReading {f : Fault} (h : f.OfMeaning) : ¬f.OfReading := by
  cases h <;> exact id

/-- No run of a program stops since a text cannot be read. -/
theorem Program.not_ofReading_of_run {source : String} {x : Executable}
    (hx : p.executable source = .ok x) {fuel : Nat} {env : Environment} {r : Run}
    (hr : x.run fuel env = some r) {f : Fault} (hf : r.outcome = .error (.execution f)) :
    ¬f.OfReading := by
  rcases Executable.run_cases hx hr with ⟨rfl, -⟩ | ⟨-, τ, hends, -⟩
  · cases hf
  rw [hf] at hends
  obtain ⟨k, hk⟩ : Reaches (p.meaning .engine) _ (.fault f τ) := hends
  rcases p.lawful_meaning .engine k _ _ _ (hk k (Nat.le_refl k)) with hmeaning | ⟨live, hlive⟩
  · exact hmeaning.not_ofReading
  · rcases Limits.eq_of_engine hlive with rfl | rfl
    · exact id
    · exact id

/-- The texts of a program that is lowered reach the host: they are intact in its module, as long as
all of them together are less than the range of an address, and no run stops since a text cannot be
read. -/
theorem Program.texts_of_executable {source : String} {x : Executable}
    (hx : p.executable source = .ok x) :
    ∃ m : Module, p.lower = .ok m ∧ x.bytes = m.encode ∧
      (m.dataBytes.length < 4294967296 → p.TextsIntact m) ∧
      ∀ fuel env r f, x.run fuel env = some r → r.outcome = .error (.execution f) → ¬f.OfReading := by
  obtain ⟨m, hm, hbytes⟩ := Program.executable_eq_ok hx
  obtain ⟨-, -, code, hcode, rfl⟩ := Program.lower_eq_ok hm
  refine ⟨_, hm, hbytes, ?_, ?_⟩
  · intro hdata
    have hpool : (poolOf code).bytes.length < 4294967296 := by
      rw [← data_assemble (p := p)]
      exact hdata
    exact textsIntact_assemble (Program.code_eq_ok hcode) hpool
  · intro fuel env r f hr hf
    exact Program.not_ofReading_of_run hx hr hf

/-- A program in which a name, a literal text and a separator are the same text, and a function that is
defined before any of them is used. -/
def sharingSource : String :=
  "def f(n):\n  print(n, \"n\", sep=\"n\")\n  return n\nn = 7\nprint(f(n), end=\"\")\n"

theorem texts_of_executable_sharingSource : ∃ p x m, Program.parse sharingSource = .ok p ∧
    p.executable "main" = .ok x ∧ p.lower = .ok m ∧ x.bytes = m.encode ∧
      m.dataBytes = [0x6e, 0x0a] ∧ p.TextsIntact m ∧
      ∀ fuel env r f, x.run fuel env = some r → r.outcome = .error (.execution f) →
        ¬f.OfReading := by
  have hlowered : ((Program.parse sharingSource).toOption.any fun p =>
      (p.executable "main").toOption.isSome && p.lower.toOption.all fun m =>
        m.dataBytes == [0x6e, 0x0a]) = true := by decide +kernel
  cases hp : Program.parse sharingSource with
  | error e => simp [hp, Except.toOption] at hlowered
  | ok p =>
    rw [hp] at hlowered
    cases hx : p.executable "main" with
    | error e => simp [hx, Except.toOption] at hlowered
    | ok x =>
      obtain ⟨m, hm, hbytes, hintact, hruns⟩ := Program.texts_of_executable hx
      have hdata : m.dataBytes = [0x6e, 0x0a] := by
        simpa [hx, hm, Except.toOption] using hlowered
      exact ⟨p, x, m, rfl, hx, hm, hbytes, hdata, hintact (by rw [hdata]; decide), hruns⟩

end Stampline

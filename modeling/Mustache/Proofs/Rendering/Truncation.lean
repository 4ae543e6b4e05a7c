import Mustache.Proofs.Rendering.Lookahead
import Mustache.Proofs.Rendering.Repetition

namespace Mustache

/-- From a context a run writes some bytes and ends with a context and maybe a failure, if the sink
has room for the bytes. Otherwise the sink takes as many of them as it can, and the run fails as the
sink demands. -/
structure Session.Emits (run : Session → Outcome) (context : Context) (bytes : Text.Bytes)
    (after : Context) (failure : Option Error) : Prop where
  whole {sink : Sink} : sink.HasRoom bytes →
    run ⟨context, sink⟩ = ⟨⟨after, sink.took bytes⟩, failure⟩
  cut {sink : Sink} : ¬ sink.HasRoom bytes →
    (run ⟨context, sink⟩).session.sink = (sink.write bytes).1 ∧
      (run ⟨context, sink⟩).failure = some (.fault sink.refusal)

namespace Session

theorem emits_nil (context : Context) (failure : Option Error) :
    Emits (fun s => ⟨s, failure⟩) context [] context failure where
  whole _ := by rw [Sink.took_nil]
  cut hfull := absurd (Sink.hasRoom_nil _) hfull

theorem emits_write (t : Text) (context : Context) :
    Emits (fun s => s.write t) context t.encode context none where
  whole hroom := by
    rw [write, Sink.write_of_hasRoom hroom]
    rfl
  cut hfull := by
    obtain ⟨room, -, -, hwrite⟩ := Sink.write_of_not_hasRoom hfull
    rw [write, hwrite]
    exact ⟨rfl, rfl⟩

theorem Emits.andThen_of_failure {run next : Session → Outcome} {context after : Context}
    {bytes : Text.Bytes} {e : Error} (h : Emits run context bytes after (some e)) :
    Emits (fun s => (run s).andThen next) context bytes after (some e) where
  whole hroom := by
    rw [h.whole hroom]
    rfl
  cut {sink} hfull := by
    obtain ⟨hsink, hfailure⟩ := h.cut hfull
    rw [Outcome.andThen, hfailure]
    exact ⟨hsink, hfailure⟩

/-- The bytes of two runs stand one behind the other, and the second writes nothing if the sink has
no room for those of the first. -/
theorem Emits.andThen {run next : Session → Outcome} {context middle after : Context}
    {bytes more : Text.Bytes} {failure : Option Error} (h : Emits run context bytes middle none)
    (hnext : Emits next middle more after failure) :
    Emits (fun s => (run s).andThen next) context (bytes ++ more) after failure where
  whole hroom := by
    obtain ⟨hbytes, hmore⟩ := Sink.hasRoom_append_iff.1 hroom
    rw [h.whole hbytes, Outcome.andThen]
    dsimp only
    rw [hnext.whole hmore, Sink.took_took]
  cut {sink} hfull := by
    by_cases hbytes : sink.HasRoom bytes
    · have hmore : ¬ (sink.took bytes).HasRoom more := fun hmore =>
        hfull (Sink.hasRoom_append_iff.2 ⟨hbytes, hmore⟩)
      obtain ⟨hsink, hfailure⟩ := hnext.cut hmore
      rw [h.whole hbytes, Outcome.andThen, ← Sink.write_took hbytes]
      exact ⟨hsink, hfailure⟩
    · obtain ⟨hsink, hfailure⟩ := h.cut hbytes
      rw [Outcome.andThen, hfailure, Sink.write_append_of_not_hasRoom hbytes]
      exact ⟨hsink, hfailure⟩

/-- Each run has an output that is the same for all sinks. -/
theorem emits_compositional : Compositional fun run => ∀ context,
    ∃ bytes after failure, Emits run context bytes after failure where
  skip context := ⟨[], context, none, emits_nil context none⟩
  fail e context := ⟨[], context, some e, emits_nil context (some e)⟩
  write t context := ⟨t.encode, context, none, emits_write t context⟩
  lookup key {next} hnext context := by
    obtain ⟨bytes, after, failure, h⟩ :=
      hnext (context.lookup key).1 (context.lookup key).2
    exact ⟨bytes, after, failure, h.whole, h.cut⟩
  andThen {run next} hrun hnext context := by
    obtain ⟨bytes, middle, failure, h⟩ := hrun context
    cases failure with
    | some e => exact ⟨bytes, middle, some e, h.andThen_of_failure⟩
    | none =>
      obtain ⟨more, after, failure, hmore⟩ := hnext middle
      exact ⟨bytes ++ more, after, failure, h.andThen hmore⟩
  within {run} hrun values context := by
    obtain ⟨bytes, after, failure, h⟩ := hrun (.ofValues values :: context)
    refine ⟨bytes, after.tail, failure, fun hroom => ?_, fun hfull => h.cut hfull⟩
    dsimp only [Session.within]
    rw [h.whole hroom]

end Session

namespace Renderer

/-- What a run writes does not depend on the sink, only where it ends. -/
theorem render_limited (r : Renderer) (name : Text) (context : Context) {sink : Sink} {room : Nat}
    (hroom : sink.room? = some room) :
    let whole := { r with sink := some .unlimited }.render name context
    let limited := { r with sink := some sink }.render name context
    ∃ bytes, whole.renderer.sink.map Sink.contents = some bytes ∧
      (bytes.length ≤ room → limited.failure = whole.failure ∧
        limited.renderer.sink.map Sink.contents = some (sink.contents ++ bytes)) ∧
      (room < bytes.length → limited.failure = some (.fault sink.refusal) ∧
        limited.renderer.sink.map Sink.contents = some (sink.contents ++ bytes.take room)) := by
  dsimp only
  cases hsource : r.sources.get? name with
  | none =>
    have hunknown (sink : Sink) : { r with sink := some sink }.render name context =
        ⟨{ r with sink := some sink }, context, some (.unknownSource name)⟩ := by
      simp only [render, hsource]
    rw [hunknown, hunknown]
    refine ⟨[], rfl, fun _ => ⟨rfl, ?_⟩, fun hlong => absurd hlong (Nat.not_lt_zero room)⟩
    rw [Option.map_some, List.append_nil]
  | some source =>
    -- The output is the same for both sinks.
    obtain ⟨bytes, after, failure, h⟩ :=
      Session.emits_compositional.run_lexing (Token.lex r.limits source.rewind) context
    have hunlimited := h.whole (Sink.hasRoom_of_limit (s := .unlimited) rfl bytes)
    have hfits : sink.HasRoom bytes ↔ bytes.length ≤ room := by
      rw [Sink.HasRoom, hroom]
      simp
    simp only [render, hsource, Option.map_some, hunlimited]
    refine ⟨bytes, ?_, fun hshort => ?_, fun hlong => ?_⟩
    · rw [Sink.contents_took]
      rfl
    · rw [h.whole (hfits.2 hshort), Sink.contents_took]
      exact ⟨rfl, rfl⟩
    · obtain ⟨hsink, hfailure⟩ := h.cut (mt hfits.1 (Nat.not_le.2 hlong))
      rw [hsink, Sink.contents_write, hroom]
      exact ⟨hfailure, rfl⟩

/-- The section of a list, in which each item is a character of two bytes and a value. -/
def listTemplate : Text :=
  ['{', '{', '#', 'a', '}', '}', 'é', '{', '{', 'b', '}', '}', '{', '{', '/', 'a', '}', '}']

def listScope : Scope :=
  .ofValues [(['a'], .list [[(['b'], .string ['x'])], [(['b'], .bool true)]])]

def smallSink : Sink := .ofLimit (some 4) (.device ['f', 'u', 'l', 'l'])

/-- A sink that is full in the middle of the second item's character stops the run before the value
does, at which it stops if there is more room. -/
theorem render_list_limited :
    let renderer := Renderer.ofTemplate listTemplate {}
    let whole := renderer.render ['t'] [listScope]
    let limited := { renderer with sink := some smallSink }.render ['t'] [listScope]
    smallSink.room? = some 4 ∧
      whole.renderer.sink.map Sink.contents = some [0xc3, 0xa9, 0x78, 0xc3, 0xa9] ∧
      whole.failure = some (.unwritableKind .boolean) ∧
      limited.renderer.sink.map Sink.contents = some [0xc3, 0xa9, 0x78, 0xc3] ∧
      limited.failure = some (.fault (.device ['f', 'u', 'l', 'l'])) := by
  obtain ⟨bytes, hwhole, -, hcut⟩ :=
    render_limited (.ofTemplate listTemplate {}) ['t'] [listScope]
      (rfl : smallSink.room? = some 4)
  have hcontents :
      ((Renderer.ofTemplate listTemplate {}).render ['t'] [listScope]).renderer.sink.map
        Sink.contents = some [0xc3, 0xa9, 0x78, 0xc3, 0xa9] := by
    decide +kernel
  obtain rfl := Option.some.inj (hwhole.symm.trans hcontents)
  obtain ⟨hfailure, hlimited⟩ := hcut (by decide)
  exact ⟨rfl, hcontents, by decide +kernel, hlimited, hfailure⟩

end Renderer

end Mustache

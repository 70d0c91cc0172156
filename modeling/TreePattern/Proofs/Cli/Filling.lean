import TreePattern.Proofs.Cli.Inspection

namespace TreePattern

namespace Cli

def OutputFormat.body (format : OutputFormat) (records : List Record) : String :=
  match format with
  | .human => String.join (Record.lines records)
  | .json => Record.jsonText records

def OutputFormat.emit (format : OutputFormat) (pieces : List String) (out : Sink) :
    Sink × Except Failure Unit :=
  match format with
  | .human =>
    match out.writeAll pieces with
    | (out, true) => (out, .ok ())
    | (out, false) => (out, .error (.write out.refusal))
  | .json =>
    match out.writeAll pieces with
    | (out, false) => (out, .error (.serialise out.refusal))
    | (out, true) =>
      match out.write "\n" with
      | (out, true) => (out, .ok ())
      | (out, false) => (out, .error (.write out.refusal))

def OutputFormat.shortfall (format : OutputFormat) (missing : ℕ) (refusal : String) : Failure :=
  match format with
  | .human => .write refusal
  | .json => if missing = 1 then .write refusal else .serialise refusal

section Room

variable (format : OutputFormat) (records : List Record) (room : ℕ) (refusal : String)

/-- It makes no difference how the text is cut. -/
theorem emit_eq_render {pieces : List String} (h : String.join pieces = format.body records)
    (out : Sink) : format.emit pieces out = render format records out := by
  cases format with
  | human =>
    have hwrite : out.writeAll pieces = out.writeAll (Record.lines records) := by
      rw [Sink.writeAll_eq_write, Sink.writeAll_eq_write, h, OutputFormat.body]
    rcases hout : out.writeAll (Record.lines records) with ⟨out', _ | _⟩ <;>
      simp only [OutputFormat.emit, render, hwrite, hout]
  | json =>
    have hwrite : out.writeAll pieces = out.write (Record.jsonText records) := by
      rw [Sink.writeAll_eq_write, h, OutputFormat.body]
    rcases hout : out.write (Record.jsonText records) with ⟨out', _ | _⟩
    · simp only [OutputFormat.emit, render, hwrite, hout]
    · rcases hend : out'.write "\n" with ⟨out'', _ | _⟩ <;>
        simp only [OutputFormat.emit, render, hwrite, hout, hend]

/-- What is written is the start of the full text. -/
theorem render_fst (out : Sink) :
    (render format records out).1 = (out.write (String.join (format.texts records))).1 := by
  rw [← Sink.writeAll_eq_write]
  cases format with
  | human =>
    rw [render, OutputFormat.texts]
    rcases out.writeAll (Record.lines records) with ⟨out', _ | _⟩ <;> rfl
  | json =>
    rw [render, OutputFormat.texts]
    simp only [Sink.writeAll]
    rcases out.write (Record.jsonText records) with ⟨out', _ | _⟩
    · rfl
    · dsimp only
      rcases out'.write "\n" with ⟨out'', _ | _⟩ <;> rfl

theorem render_snd (written : Array UInt8) :
    (render format records ⟨some room, written, refusal⟩).2 =
      if (Sink.bytesOf (String.join (format.texts records))).length ≤ room then .ok ()
      else .error (format.shortfall
        ((Sink.bytesOf (String.join (format.texts records))).length - room) refusal) := by
  cases format with
  | human =>
    rw [render, Sink.writeAll_eq_write, Sink.write_room, OutputFormat.texts]
    by_cases h : (Sink.bytesOf (String.join (Record.lines records))).length ≤ room
    · rw [decide_eq_true h, if_pos h]
    · rw [decide_eq_false h, if_neg h, OutputFormat.shortfall]
  | json =>
    -- Two writes may fail. Only the second one, of a single byte, is no matter of the document.
    have hfull : (Sink.bytesOf (String.join (OutputFormat.json.texts records))).length =
        (Sink.bytesOf (Record.jsonText records)).length + 1 := by
      rw [Sink.bytesOf_join, OutputFormat.texts, List.flatMap_cons, List.length_append]
      rfl
    rw [hfull, render, Sink.write_room]
    generalize (Sink.bytesOf (Record.jsonText records)).length = n
    by_cases h : n ≤ room
    · have hend : (Sink.bytesOf "\n").length = 1 := rfl
      rw [decide_eq_true h]
      dsimp only
      rw [Sink.write_room, hend]
      by_cases hlast : n + 1 ≤ room
      · rw [decide_eq_true (by omega), if_pos hlast]
      · rw [decide_eq_false (by omega), if_neg hlast, OutputFormat.shortfall, if_pos (by omega)]
    · rw [decide_eq_false h, if_neg (by omega), OutputFormat.shortfall, if_neg (by omega)]

theorem render_full : (render format records (.empty none)).1.written.toList =
    Sink.bytesOf (String.join (format.texts records)) := by
  rw [render_endless format records rfl, Sink.bytesOf_join]
  simp [Sink.empty, Sink.refusing]

theorem render_room : (render format records (.refusing (some room) refusal)).1.written.toList =
    (render format records (.empty none)).1.written.toList.take room := by
  rw [render_fst, render_full, Sink.refusing, Sink.write_room]
  simp

end Room

/-- Results are written to a sink with room for some bytes, in pieces of any kind. If there is room
for the full text, it is written and the run succeeds. If not, as much of it is written as there is
room for, and the run fails: for a JSON document that was cut when it was serialised, and otherwise
when results were written, which for JSON is the line end alone. -/
theorem render_fills (format : OutputFormat) (records : List Record) (room : ℕ) (refusal : String) :
    let full := (render format records (.empty none)).1.written.toList
    let ending := render format records (.refusing (some room) refusal)
    (∀ pieces, String.join pieces = format.body records →
      format.emit pieces (.refusing (some room) refusal) = ending) ∧
    (full.length ≤ room → ending.2 = .ok () ∧ ending.1.written.toList = full) ∧
    (room < full.length → ending.1.written.toList = full.take room ∧
      (format = .human → ending.2 = .error (.write refusal)) ∧
      (format = .json → room + 1 < full.length → ending.2 = .error (.serialise refusal)) ∧
      (format = .json → room + 1 = full.length → ending.2 = .error (.write refusal))) ∧
    ∀ (host : Host) args i errors, host.parse args = .ok i →
      host.recordsFor i = .ok (format, records) →
      let report := host.run args (.refusing (some room) refusal) errors
      report.output = ending.1 ∧
      (full.length ≤ room → report.exitCode = 0 ∧ report.errors = errors) ∧
      (room < full.length → report.exitCode = 1 ∧ ∀ failure, ending.2 = .error failure →
        report.errors = (errors.write (failure.message ++ "\n")).1) := by
  intro full ending
  have hfull : full.length = (Sink.bytesOf (String.join (format.texts records))).length :=
    congrArg List.length (render_full format records)
  have hwritten : ending.1.written.toList = full.take room :=
    render_room format records room refusal
  have hend : ending.2 = if full.length ≤ room then .ok ()
      else .error (format.shortfall (full.length - room) refusal) := by
    rw [hfull]
    exact render_snd format records room refusal #[]
  refine ⟨fun pieces h ↦ emit_eq_render format records h _, fun hle ↦ ?_, fun hlt ↦ ?_, ?_⟩
  · rw [hend, if_pos hle, hwritten, List.take_of_length_le hle]
    exact ⟨rfl, rfl⟩
  · rw [hend, if_neg (by omega)]
    refine ⟨hwritten, ?_, ?_, ?_⟩
    · rintro rfl
      rfl
    · rintro rfl hcut
      rw [OutputFormat.shortfall, if_neg (by omega)]
    · rintro rfl hlast
      rw [OutputFormat.shortfall, if_pos (by omega)]
  · intro host args i errors hparse hrecords report
    obtain ⟨houtput, hsuccess, hfailure⟩ :=
      run_render hparse hrecords (.refusing (some room) refusal) errors
    refine ⟨houtput, fun hle ↦ hsuccess ?_, fun hlt ↦ ?_⟩
    · exact hend.trans (if_pos hle)
    · have hfails := hend.trans (if_neg (by omega))
      exact ⟨(hfailure _ hfails).1, fun failure h ↦ (hfailure failure h).2⟩

end Cli

namespace Sample

open Cli

def identRecord : Record :=
  ⟨none, "Ident", "Ident", some "Name=x", ⟨[]⟩⟩

def identDocument : String :=
  "[\n  \x7b\n    \"capture\": null,\n    \"kind\": \"Ident\",\n    \"rule\": \"Ident\",\n" ++
    "    \"captures\": \x7b\x7d\n  \x7d\n]"

theorem jsonText_identRecord : Record.jsonText [identRecord] = identDocument := by
  have hquote (s : String) : Json.quote s =
      (s.toList.foldl (fun out c ↦ out ++ Json.escapeChar c) "\"").push '"' := by
    rw [Json.quote, String.foldl_eq_foldl_toList]
  simp only [Record.jsonText, identRecord, Record.listJson, Record.toJson, Record.capturesJson,
    Record.groupsJson, Json.pretty, Json.prettyItems, Json.prettyMembers, hquote]
  decide +kernel

theorem recordsFor_named :
    (identWorld namedText).host.recordsFor identInvocation = .ok (.json, [identRecord]) := by
  obtain ⟨root, hread, hkind, hshown, hx⟩ :=
    exists_read_ident namedText (.ok (some "Name=x")) (by decide +kernel)
  have hprepared : Prepared (identWorld namedText).host identLine identInvocation
      { output := .json } rootIdentRules root := prepared_identWorld (by decide +kernel) hread
  have hrecords : Record.ofFinds .lenient [identFind root] = .ok [identRecord] := by
    simp only [identFind, Record.ofFinds, Record.ofFind, hshown, hkind]
    rfl
  rw [hprepared.recordsFor hx, hrecords]
  rfl

end Sample

namespace Cli

open Sample

/-- With its line end, the document takes 94 bytes. -/
theorem render_fills_document :
    (render .json [identRecord] (.empty none)).1.written.toList.length = 94 ∧
      (render .json [identRecord] (.empty (some 94))).2 = .ok () ∧
      (render .json [identRecord] (.empty (some 93))).2 = .error (.write "sink full") ∧
      (render .json [identRecord] (.empty (some 92))).2 = .error (.serialise "sink full") ∧
      (run (identWorld namedText) identLine (.empty (some 93)) (.empty none)).exitCode = 1 := by
  have hfull : (render .json [identRecord] (.empty none)).1.written.toList.length = 94 := by
    rw [render_full, OutputFormat.texts, jsonText_identRecord]
    decide +kernel
  have hparse : (identWorld namedText).host.parse identLine = .ok identInvocation := rfl
  obtain ⟨-, hroom, -⟩ := render_fills .json [identRecord] 94 "sink full"
  obtain ⟨-, -, hlast, hrun⟩ := render_fills .json [identRecord] 93 "sink full"
  obtain ⟨-, -, hcut, -⟩ := render_fills .json [identRecord] 92 "sink full"
  refine ⟨hfull, (hroom (by omega)).1, (hlast (by omega)).2.2.2 rfl (by omega),
    (hcut (by omega)).2.2.1 rfl (by omega), ?_⟩
  exact ((hrun _ _ _ (.empty none) hparse recordsFor_named).2.2 (by omega)).1

end Cli

end TreePattern

import ProxyBroker.Lib.Head
import ProxyBroker.Lib.Table
import ProxyBroker.Ndjson
import ProxyBroker.Parse.AddrLines
import ProxyBroker.Render

/-!
# Writing a stream of proxies (`bin/proxybroker.rs`: `Emitter`, `csv_row`, `write_stream`)

`writeStream` drains the stream into the sink, in one of six formats or by a template, and into the file of `--save`.
The ticks of the progress bar come in between, and any write can fail after a part of its bytes, which ends the
command. `document` is what a whole list of proxies is written as, and `Read` is what a reader of each format makes of
it.
-/

namespace ProxyBroker
open Lib

namespace Export

/-- `bin/proxybroker.rs:Format`. -/
inductive Format where
  | default | txt | json | jsonArray | url | csv
deriving DecidableEq, Repr

/-- `csv_row`. -/
def csvRow (p : Proxy) : Text :=
  p.host.display ++ [','] ++ showNat p.port.toNat ++ [','] ++ protoList p ++ [','] ++ anonStr p ++ [','] ++ countryStr p ++ [','] ++
    showHundredths p.avgRespTime ++ [','] ++ showHundredths p.errorRate

/-- The header of `csv`. -/
def csvHeader : Text := "host,port,protocols,anon,country,resp_time,error_rate".toList

/-- `bin/proxybroker.rs:Emitter`. -/
structure Emitter where
  format : Format
  template : Option Text
  started : Bool

namespace Emitter

/-- `Emitter::new`. -/
def new (format : Format) (template : Option Text) : Emitter := ⟨format, template, false⟩

/-- `Emitter::prefix`. -/
def prefixText (e : Emitter) : Text :=
  if e.template.isSome then []
  else
    match e.format with
    | .jsonArray => ['[']
    | .csv => csvHeader ++ ['\n']
    | .default | .txt | .json | .url => []

/-- `Emitter::item`: the chunk, and the emitter after it. -/
def item (serde : SerdeJson) (e : Emitter) (p : Proxy) : Text × Emitter :=
  match e.template with
  | some tmpl => (renderTemplate tmpl p ++ ['\n'], e)
  | none =>
    match e.format with
    | .default | .txt => (p.addrText ++ ['\n'], e)
    | .json => (serde.toWriter p.toJson ++ ['\n'], e)
    | .url => (schemeStr p ++ "://".toList ++ p.addrText ++ ['\n'], e)
    | .csv => (csvRow p ++ ['\n'], e)
    | .jsonArray => ((if e.started then [','] else []) ++ serde.toWriter p.toJson, { e with started := true })

/-- `Emitter::suffix`. -/
def suffix (e : Emitter) : Text :=
  if e.template.isSome then []
  else
    match e.format with
    | .jsonArray => "]\n".toList
    | .default | .txt | .json | .url | .csv => []

end Emitter

/-! ## `write_stream` -/

/-- How a write ends: whole, or with an error after some bytes. -/
inductive Written where
  | whole
  | failed (after : Nat)
deriving DecidableEq, Repr

/-- What the file has then. -/
def Written.bytes (w : Written) (chunk : Bytes) : Bytes :=
  match w with
  | .whole => chunk
  | .failed after => chunk.take after

inductive Status where
  | running | finished | failed
deriving DecidableEq, Repr

/-- The flags of the command that `write_stream` reads. -/
structure Options where
  format : Format
  template : Option Text
  save : Bool
  progress : Bool

/-- The state of `write_stream`: the bytes of the sink and of the `--save` file, and the number of proxies written and shown on the bar. -/
structure Sinks where
  emitter : Emitter
  out : Bytes
  saved : Bytes
  count : Nat
  bar : Nat
  status : Status

/-- What the loop does next: a proxy comes, with the outcomes of its two writes; the timer of the bar ticks; or the stream ends, and
the suffix is written. -/
inductive Turn where
  | proxy (p : Proxy) (out saved : Written)
  | tick
  | done (out : Written)

section
variable (serde : SerdeJson) (o : Options)

/-- Up to the loop. -/
def begin (out : Written) : Sinks :=
  let emitter := Emitter.new o.format o.template
  ⟨emitter, out.bytes (utf8 emitter.prefixText), [], 0, 0, if out = .whole then .running else .failed⟩

/-- One turn of the loop. Nothing ticks without a bar. -/
def turn (s : Sinks) (t : Turn) : Sinks :=
  if s.status ≠ .running then s
  else
    match t with
    | .tick => s
    | .proxy p out saved =>
      let (chunk, emitter) := s.emitter.item serde p
      let s := { s with emitter, out := s.out ++ out.bytes (utf8 chunk) }
      if out ≠ .whole then { s with status := .failed }
      else
        let s := if o.save then { s with saved := s.saved ++ saved.bytes (writeNdjson serde [p]) } else s
        if o.save ∧ saved ≠ .whole then { s with status := .failed }
        else { s with count := s.count + 1, bar := if o.progress then s.bar + 1 else s.bar }
    | .done out => { s with out := s.out ++ out.bytes (utf8 s.emitter.suffix), status := if out = .whole then .finished else .failed }

/-- `write_stream`. -/
def writeStream (out : Written) (turns : List Turn) : Sinks := turns.foldl (turn serde o) (begin o out)

end

/-- The proxies that the stream gives before it ends. -/
def streamed : List Turn → List Proxy
  | [] => []
  | .proxy p _ _ :: turns => p :: streamed turns
  | .tick :: turns => streamed turns
  | .done _ :: _ => []

/-! ## The document -/

section
variable (serde : SerdeJson)

/-- The chunks of the proxies. -/
def items (e : Emitter) : List Proxy → Text
  | [] => []
  | p :: ps => (e.item serde p).1 ++ items (e.item serde p).2 ps

/-- What a list of proxies is written as. -/
def document (format : Format) (template : Option Text) (ps : List Proxy) : Text :=
  let e := Emitter.new format template
  e.prefixText ++ items serde e ps ++ e.suffix

end

/-! ## A run -/

section Run

variable {serde : SerdeJson} {o : Options} {s : Sinks} {p : Proxy} {ps : List Proxy}

theorem Written.bytes_prefix (w : Written) (chunk : Bytes) : w.bytes chunk <+: chunk := by
  cases w with
  | whole => exact List.prefix_refl chunk
  | failed after => exact List.take_prefix after chunk

/-- What the `--save` file gets for these proxies. -/
def lines (serde : SerdeJson) (o : Options) (ps : List Proxy) : Bytes := if o.save then writeNdjson serde ps else []

theorem lines_cons (p : Proxy) (ps : List Proxy) : lines serde o (p :: ps) = lines serde o [p] ++ lines serde o ps := by
  unfold lines
  split
  · simp [writeNdjson]
  · rfl

theorem suffix_item (e : Emitter) (p : Proxy) : (e.item serde p).2.suffix = e.suffix := by
  unfold Emitter.item Emitter.suffix
  split
  · rfl
  · split <;> rfl

theorem wrote_nothing : s.saved ++ lines serde o [] = s.saved := by
  rw [lines, writeNdjson, List.flatMap_nil, ite_self, List.append_nil]

/-- From one state to another, with these proxies in between: `count` of them are in both files, and no more than a part of the next. -/
structure Wrote (serde : SerdeJson) (o : Options) (s w : Sinks) (ps : List Proxy) (n : Nat) : Prop where
  counted : w.count = s.count + n ∧ n ≤ ps.length
  out_least : s.out ++ utf8 (items serde s.emitter (ps.take n)) <+: w.out
  out_most : w.out <+: s.out ++ utf8 (items serde s.emitter ps ++ s.emitter.suffix)
  saved_least : s.saved ++ lines serde o (ps.take n) <+: w.saved
  saved_most : w.saved <+: s.saved ++ lines serde o (ps.take (n + 1))
  finished : w.status = .finished → n = ps.length ∧ w.out = s.out ++ utf8 (items serde s.emitter ps ++ s.emitter.suffix)

theorem turn_stopped (stopped : s.status ≠ .running) (turns : List Turn) : turns.foldl (turn serde o) s = s := by
  induction turns with
  | nil => rfl
  | cons t turns ih =>
    have still : turn serde o s t = s := if_pos stopped
    rw [List.foldl_cons, still, ih]

/-- A proxy is written to both files, or an error leaves a part of it. -/
theorem turn_proxy (running : s.status = .running) (p : Proxy) (out saved : Written) :
    ((turn serde o s (.proxy p out saved)).status = .failed ∧ ∃ part part', part <+: utf8 (s.emitter.item serde p).1 ∧
      part' <+: lines serde o [p] ∧ (turn serde o s (.proxy p out saved)).out = s.out ++ part ∧
      (turn serde o s (.proxy p out saved)).saved = s.saved ++ part' ∧ (turn serde o s (.proxy p out saved)).count = s.count) ∨
    ((turn serde o s (.proxy p out saved)).status = .running ∧
      (turn serde o s (.proxy p out saved)).emitter = (s.emitter.item serde p).2 ∧
      (turn serde o s (.proxy p out saved)).out = s.out ++ utf8 (s.emitter.item serde p).1 ∧
      (turn serde o s (.proxy p out saved)).saved = s.saved ++ lines serde o [p] ∧
      (turn serde o s (.proxy p out saved)).count = s.count + 1) := by
  unfold turn lines
  rw [if_neg (not_not.2 running)]
  dsimp only
  cases out with
  | failed after =>
    left
    rw [if_pos (by simp)]
    exact ⟨rfl, _, [], List.take_prefix after _, List.nil_prefix, rfl, (List.append_nil _).symm, rfl⟩
  | whole =>
    rw [if_neg (by decide)]
    cases save : o.save with
    | false =>
      right
      simp [Written.bytes, running]
    | true =>
      cases saved with
      | whole =>
        right
        simp [Written.bytes, running]
      | failed after =>
        left
        refine ⟨by simp, utf8 (s.emitter.item serde p).1, (writeNdjson serde [p]).take after, List.prefix_refl _, ?_, ?_, ?_, ?_⟩
        · exact List.take_prefix after _
        all_goals simp [Written.bytes]

/-- A turn that fails on a proxy leaves a part of it. -/
theorem Wrote.stopped {out saved : Bytes} (left : out <+: utf8 (s.emitter.item serde p).1) (right : saved <+: lines serde o [p])
    {w : Sinks} (failed : w.status = .failed) (count : w.count = s.count) (out_eq : w.out = s.out ++ out) (saved_eq : w.saved = s.saved ++ saved)
    (ps : List Proxy) : Wrote serde o s w (p :: ps) 0 where
  counted := ⟨count, Nat.zero_le _⟩
  out_least := by
    rw [out_eq]
    exact (List.prefix_append_right_inj _).2 List.nil_prefix
  out_most := by
    rw [out_eq, items, List.append_assoc, utf8_append]
    exact (List.prefix_append_right_inj _).2 (left.trans (List.prefix_append _ _))
  saved_least := by
    rw [saved_eq, List.take_zero, wrote_nothing]
    exact List.prefix_append _ _
  saved_most := by
    rw [saved_eq]
    exact (List.prefix_append_right_inj _).2 right
  finished done := by
    rw [failed] at done
    cases done

/-- A proxy that was written whole, and what came after it. -/
theorem Wrote.cons {s' w : Sinks} (emitter : s'.emitter = (s.emitter.item serde p).2) (out : s'.out = s.out ++ utf8 (s.emitter.item serde p).1)
    (saved : s'.saved = s.saved ++ lines serde o [p]) (count : s'.count = s.count + 1) {n : Nat} (rest : Wrote serde o s' w ps n) :
    Wrote serde o s w (p :: ps) (n + 1) where
  counted := by
    obtain ⟨counted, le⟩ := rest.counted
    constructor
    · omega
    · rw [List.length_cons]
      omega
  out_least := by
    have least := rest.out_least
    rw [out, emitter, List.append_assoc, ← utf8_append] at least
    exact least
  out_most := by
    have most := rest.out_most
    rw [out, emitter, suffix_item, List.append_assoc, ← utf8_append, ← List.append_assoc] at most
    exact most
  saved_least := by
    have least := rest.saved_least
    rw [saved, List.append_assoc, ← lines_cons] at least
    exact least
  saved_most := by
    have most := rest.saved_most
    rw [saved, List.append_assoc, ← lines_cons] at most
    exact most
  finished done := by
    obtain ⟨all, whole⟩ := rest.finished done
    rw [out, emitter, suffix_item, List.append_assoc, ← utf8_append, ← List.append_assoc] at whole
    exact ⟨by rw [all, List.length_cons], whole⟩

/-- **The loop.** -/
theorem wrote_run (running : s.status = .running) (turns : List Turn) :
    ∃ n, Wrote serde o s (turns.foldl (turn serde o) s) (streamed turns) n := by
  induction turns generalizing s with
  | nil =>
    refine ⟨0, ⟨rfl, Nat.le_refl _⟩, ?_, ?_, ?_, ?_, ?_⟩
    · exact (List.append_nil s.out).symm ▸ List.prefix_refl s.out
    · exact List.prefix_append _ _
    · exact wrote_nothing.symm ▸ List.prefix_refl s.saved
    · exact List.prefix_append _ _
    · intro done
      rw [List.foldl_nil, running] at done
      cases done
  | cons t turns ih =>
    have on : ¬ s.status ≠ .running := not_not.2 running
    rw [List.foldl_cons]
    cases t with
    | tick =>
      have still : turn serde o s .tick = s := if_neg on
      rw [still]
      exact ih running
    | done out =>
      have next : turn serde o s (.done out) =
          { s with out := s.out ++ out.bytes (utf8 s.emitter.suffix), status := if out = .whole then .finished else .failed } := if_neg on
      have stopped : (turn serde o s (.done out)).status ≠ .running := by
        rw [next]
        dsimp only
        split <;> decide
      rw [turn_stopped stopped, next]
      refine ⟨0, ⟨rfl, Nat.le_refl _⟩, ?_, ?_, ?_, ?_, ?_⟩
      · exact (List.prefix_append_right_inj _).2 List.nil_prefix
      · exact (List.prefix_append_right_inj _).2 (out.bytes_prefix _)
      · exact wrote_nothing.symm ▸ List.prefix_refl s.saved
      · exact List.prefix_append _ _
      · intro done
        dsimp only at done
        split at done
        · rename_i whole
          subst whole
          exact ⟨rfl, rfl⟩
        · cases done
    | proxy p out saved =>
      rcases turn_proxy running p out saved with ⟨failed, part, part', left, right, out_eq, saved_eq, count⟩ | ⟨on, emitter, out_eq, saved_eq, count⟩
      · have stopped : (turn serde o s (.proxy p out saved)).status ≠ .running := by
          rw [failed]
          decide
        rw [turn_stopped stopped]
        exact ⟨0, .stopped left right failed count out_eq saved_eq _⟩
      · obtain ⟨n, rest⟩ := ih on
        exact ⟨n + 1, .cons emitter out_eq saved_eq count rest⟩

end Run

/-! ## Reading it back -/

/-- The columns of a row. -/
def csvFields (p : Proxy) : List Text :=
  [p.host.display, showNat p.port.toNat, protoList p, anonStr p, countryStr p, showHundredths p.avgRespTime, showHundredths p.errorRate]

/-- The names of the columns. -/
def csvNames : List Text :=
  ["host".toList, "port".toList, "protocols".toList, "anon".toList, "country".toList, "resp_time".toList, "error_rate".toList]

/-- What the reader of each format makes of a document with these proxies. -/
def Read (serde : SerdeJson) (d : Parse.DigitClass) (ps : List Proxy) (text : Text) : Option Text → Format → Prop
  | some tmpl, _ => terminated '\n' text = ps.map (renderTemplate tmpl) ↔ ∀ p ∈ ps, '\n' ∉ renderTemplate tmpl p
  | none, .default | none, .txt => terminated '\n' text = ps.map Proxy.addrText ∧
      ((∀ p ∈ ps, (∃ bits, p.host = .v4 bits) ∧ 10 ≤ p.port.toNat) → (Parse.parseProxyLines d text).map Proxy.addr = ps.map Proxy.addr)
  | none, .json => (∀ p ∈ ps, serde.Carries p.toJson) → readNdjson serde (utf8 text) = some (ps.map Proxy.loaded)
  | none, .jsonArray => text = serde.toWriter (.array (ps.map Proxy.toJson)) ++ ['\n']
  | none, .url => (terminated '\n' text).map (splitOnceAt "://".toList) = ps.map fun p => some (schemeStr p, p.addrText)
  | none, .csv => readTable ',' '\n' text = csvNames :: ps.map csvFields ↔ ∀ p ∈ ps, ',' ∉ countryStr p ∧ '\n' ∉ countryStr p

section Read

variable {serde : SerdeJson} {d : Parse.DigitClass} {p : Proxy} {ps : List Proxy} {c : Char}

/-- The items of a format with one line for each proxy. -/
theorem items_lines {e : Emitter} {f : Proxy → Text} (line : ∀ p, e.item serde p = (f p ++ ['\n'], e)) (ps : List Proxy) :
    items serde e ps = (ps.map f).flatMap fun l => l ++ ['\n'] := by
  induction ps with
  | nil => rfl
  | cons p ps ih =>
    rw [items, line, List.map_cons, List.flatMap_cons]
    exact congrArg (f p ++ ['\n'] ++ ·) ih

/-- Lines are read back exactly when none has a line feed. -/
theorem terminated_iff {ls : List Text} : terminated '\n' (ls.flatMap fun l => l ++ ['\n']) = ls ↔ ∀ l ∈ ls, '\n' ∉ l := by
  constructor
  · intro same l mem
    rw [← same] at mem
    exact splitOn_free (List.dropLast_subset _ mem)
  · exact terminated_flatMap

theorem csvRow_eq (p : Proxy) : csvRow p = row ',' (csvFields p) := by
  simp [csvRow, row, csvFields, List.intercalate_cons_cons]

theorem csvHeader_eq : csvHeader = row ',' csvNames := by decide

theorem not_mem_showHundredths (sep : c = ',' ∨ c = '\n') (x : ℚ) : c ∉ showHundredths x := by
  have number (n : Nat) : c ∉ showNat n := by
    rcases sep with rfl | rfl
    · exact not_mem_showNat (by decide) n
    · exact not_mem_showNat (by decide) n
  have signs : c ≠ '-' ∧ c ≠ '.' := by
    rcases sep with rfl | rfl <;> decide
  unfold showHundredths
  dsimp only
  rw [List.mem_append, List.mem_append, not_or, not_or]
  refine ⟨⟨?_, number _⟩, ?_⟩
  · split
    · exact fun mem => signs.1 (List.mem_singleton.1 mem)
    · exact List.not_mem_nil
  · split
    · exact List.not_mem_nil
    · rw [List.mem_append, List.mem_cons, not_or, not_or]
      refine ⟨⟨signs.2, number _⟩, ?_⟩
      split
      · exact List.not_mem_nil
      · exact number _

/-- Only the country can hold a separator. -/
theorem csvFields_free (sep : c = ',' ∨ c = '\n') (p : Proxy) : (∀ f ∈ csvFields p, c ∉ f) ↔ c ∉ countryStr p := by
  have proto (q : Proto) : c ∉ q.asStr := by
    rcases sep with rfl | rfl <;> cases q <;> decide
  have level (l : AnonLevel) : c ∉ l.asStr := by
    rcases sep with rfl | rfl <;> cases l <;> decide
  have host : c ∉ p.host.display := by
    rcases sep with rfl | rfl <;> exact not_mem_display (by decide) p.host
  have port : c ∉ showNat p.port.toNat := by
    rcases sep with rfl | rfl <;> exact not_mem_showNat (by decide) _
  have protocols : c ∉ protoList p := by
    intro mem
    rcases mem_joinText mem with bar | ⟨t, at_t, here⟩
    · rcases sep with rfl | rfl <;> cases bar
    · obtain ⟨q, -, rfl⟩ := List.mem_map.1 at_t
      exact proto q here
  have anon : c ∉ anonStr p := by
    unfold anonStr
    cases (p.types .http).join with
    | none => exact List.not_mem_nil
    | some l => exact level l
  have time := not_mem_showHundredths sep p.avgRespTime
  have rate := not_mem_showHundredths sep p.errorRate
  constructor
  · exact fun free => free _ (by simp [csvFields])
  · intro country f mem
    simp only [csvFields, List.mem_cons, List.not_mem_nil, or_false] at mem
    rcases mem with rfl | rfl | rfl | rfl | rfl | rfl | rfl <;> assumption

/-- The table of `csv`. -/
theorem read_csv (ps : List Proxy) : Read serde d ps (document serde .csv none ps) none .csv := by
  have text : document serde .csv none ps = table ',' '\n' (csvNames :: ps.map csvFields) := by
    have items := @items_lines serde (.new .csv none) csvRow (fun _ => rfl) ps
    rw [document, items, table, List.flatMap_cons, ← csvHeader_eq, List.flatMap_map, List.flatMap_map]
    simp only [csvRow_eq]
    exact List.append_nil _
  rw [Read, text, readTable_table_iff (by decide)]
  · rw [List.forall_mem_cons, List.forall_mem_map]
    have names : ∀ f ∈ csvNames, ',' ∉ f ∧ '\n' ∉ f := by decide
    constructor
    · rintro ⟨-, free⟩ p mem
      exact ⟨(csvFields_free (.inl rfl) p).1 fun f at_f => (free p mem f at_f).1,
        (csvFields_free (.inr rfl) p).1 fun f at_f => (free p mem f at_f).2⟩
    · intro free
      refine ⟨names, fun p mem f at_f => ?_⟩
      exact ⟨(csvFields_free (.inl rfl) p).2 (free p mem).1 f at_f, (csvFields_free (.inr rfl) p).2 (free p mem).2 f at_f⟩
  · intro r mem
    rcases List.mem_cons.1 mem with rfl | mem
    · decide
    · obtain ⟨p, -, rfl⟩ := List.mem_map.1 mem
      exact List.cons_ne_nil _ _

theorem read_template (tmpl : Text) (format : Format) (ps : List Proxy) :
    Read serde d ps (document serde format (some tmpl) ps) (some tmpl) format := by
  have items := @items_lines serde (.new format (some tmpl)) (renderTemplate tmpl) (fun _ => rfl) ps
  have text : document serde format (some tmpl) ps = (ps.map (renderTemplate tmpl)).flatMap fun l => l ++ ['\n'] := by
    rw [document, items]
    exact List.append_nil _
  rw [Read, text, terminated_iff, List.forall_mem_map]

/-- The text of a document in `txt`. -/
theorem document_txt {format : Format} (plain : format = .default ∨ format = .txt) (ps : List Proxy) :
    document serde format none ps = (ps.map Proxy.addrText).flatMap fun l => l ++ ['\n'] := by
  have line (p : Proxy) : (Emitter.new format none).item serde p = (p.addrText ++ ['\n'], .new format none) := by
    rcases plain with rfl | rfl <;> rfl
  have ends : (Emitter.new format none).prefixText = [] ∧ (Emitter.new format none).suffix = [] := by
    rcases plain with rfl | rfl <;> exact ⟨rfl, rfl⟩
  rw [document, items_lines line, ends.1, ends.2]
  exact List.append_nil _

theorem addrText_free (p : Proxy) : '\n' ∉ p.addrText := by
  have line := Parse.feed_not_mem_line p.host p.port .lf
  unfold Proxy.addrText
  split
  · simpa [Parse.LineEnd.before] using line
  · have display : '\n' ∉ p.host.display := not_mem_display (by decide) p.host
    have port : '\n' ∉ showNat p.port.toNat := not_mem_showNat (by decide) _
    simp [display, port]

/-- The addresses in a document of `txt`. -/
theorem read_addrs (hosts : ∀ p ∈ ps, (∃ bits, p.host = .v4 bits) ∧ 10 ≤ p.port.toNat) :
    (Parse.parseProxyLines d ((ps.map Proxy.addrText).flatMap fun l => l ++ ['\n'])).map Proxy.addr = ps.map Proxy.addr := by
  have text : ((ps.map Proxy.addrText).flatMap fun l => l ++ ['\n']) = Parse.addrLines (ps.map fun p => (p, .lf)) := by
    rw [Parse.addrLines, List.flatMap_map, List.flatMap_map]
    simp [Parse.LineEnd.before]
  rw [text]
  clear text
  induction ps with
  | nil => rfl
  | cons p ps ih =>
    obtain ⟨⟨bits, host⟩, port⟩ := hosts p List.mem_cons_self
    have rest := ih fun q mem => hosts q (List.mem_cons_of_mem p mem)
    rw [List.map_cons, Parse.parseProxyLines_cons host port, List.map_cons, rest]
    rfl

theorem read_txt {format : Format} (plain : format = .default ∨ format = .txt) (ps : List Proxy) :
    Read serde d ps (document serde format none ps) none format := by
  have back : terminated '\n' ((ps.map Proxy.addrText).flatMap fun l => l ++ ['\n']) = ps.map Proxy.addrText := by
    apply terminated_flatMap
    rw [List.forall_mem_map]
    exact fun p _ => addrText_free p
  rw [document_txt plain]
  rcases plain with rfl | rfl <;> exact ⟨back, fun hosts => read_addrs hosts⟩

theorem read_json (ps : List Proxy) : Read serde d ps (document serde .json none ps) none .json := by
  intro carries
  have items := @items_lines serde (.new .json none) (fun p => serde.toWriter p.toJson) (fun _ => rfl) ps
  have bytes : utf8 (document serde .json none ps) = writeNdjson serde ps := by
    have text : document serde .json none ps = (ps.map fun p => serde.toWriter p.toJson).flatMap fun l => l ++ ['\n'] := by
      rw [document, items]
      exact List.append_nil _
    rw [text, List.flatMap_map]
    clear items text carries
    induction ps with
    | nil => rfl
    | cons p ps ih =>
      rw [List.flatMap_cons, utf8_append, ih, utf8_append]
      rfl
  rw [bytes, readNdjson_write carries]

/-- The items of an array after the first. -/
theorem items_array (template : Option Text) (none_given : template = none) (ps : List Proxy) :
    items serde ⟨.jsonArray, template, true⟩ ps = led ',' (ps.map fun p => serde.toWriter p.toJson) := by
  subst none_given
  induction ps with
  | nil => rfl
  | cons p ps ih =>
    rw [items, List.map_cons, led, List.flatMap_cons]
    exact congrArg (',' :: serde.toWriter p.toJson ++ ·) ih

/-- `serde_json` writes an array as its elements, with commas between them. -/
def Arrays (serde : SerdeJson) : Prop :=
  ∀ vs, serde.toWriter (.array vs) = ['['] ++ joinText [','] (vs.map serde.toWriter) ++ [']']

theorem read_array (arrays : Arrays serde) (ps : List Proxy) : Read serde d ps (document serde .jsonArray none ps) none .jsonArray := by
  have inner : items serde (.new .jsonArray none) ps = joinText [','] (ps.map fun p => serde.toWriter p.toJson) := by
    cases ps with
    | nil => rfl
    | cons p ps =>
      rw [List.map_cons, joinText_cons, ← items_array none rfl]
      rfl
  show document serde .jsonArray none ps = _
  rw [document, inner, arrays, List.map_map, List.append_assoc, List.append_assoc]
  rfl

theorem read_url (ps : List Proxy) : Read serde d ps (document serde .url none ps) none .url := by
  have items := @items_lines serde (.new .url none) (fun p => schemeStr p ++ "://".toList ++ p.addrText) (fun _ => rfl) ps
  have text : document serde .url none ps = (ps.map fun p => schemeStr p ++ "://".toList ++ p.addrText).flatMap fun l => l ++ ['\n'] := by
    rw [document, items]
    exact List.append_nil _
  have scheme (p : Proxy) : ':' ∉ schemeStr p ∧ '\n' ∉ schemeStr p := by
    unfold schemeStr
    split_ifs <;> decide
  rw [Read, text, terminated_flatMap]
  · rw [List.map_map]
    apply List.map_congr_left
    intro p _
    exact splitOnceAt_fresh (scheme p).1 p.addrText
  · rw [List.forall_mem_map]
    intro p _
    rw [List.mem_append, List.mem_append, not_or, not_or]
    exact ⟨⟨(scheme p).2, by decide⟩, addrText_free p⟩

/-- **A document is read back.** -/
theorem read_document (arrays : Arrays serde) (d : Parse.DigitClass) (format : Format) (template : Option Text) (ps : List Proxy) :
    Read serde d ps (document serde format template ps) template format := by
  cases template with
  | some tmpl => exact read_template tmpl format ps
  | none =>
    cases format with
    | default => exact read_txt (.inl rfl) ps
    | txt => exact read_txt (.inr rfl) ps
    | json => exact read_json ps
    | jsonArray => exact read_array arrays ps
    | url => exact read_url ps
    | csv => exact read_csv ps

/-- The lines of a file that are complete. -/
def completeLines (bs : Bytes) : Bytes := (terminated 10 bs).flatMap fun l => l ++ [10]

theorem writeNdjson_eq (ps : List Proxy) :
    writeNdjson serde ps = (ps.map fun p => utf8 (serde.toWriter p.toJson)).flatMap fun l => l ++ [10] := by
  rw [writeNdjson, List.flatMap_map]

/-- Of a file that ends within a line, the lines before it are complete. -/
theorem completeLines_part (carries : ∀ p ∈ ps, serde.Carries p.toJson) {n : Nat} {saved : Bytes} (least : writeNdjson serde (ps.take n) <+: saved)
    (most : saved <+: writeNdjson serde (ps.take (n + 1))) :
    completeLines saved = writeNdjson serde (ps.take n) ∨ completeLines saved = writeNdjson serde (ps.take (n + 1)) := by
  have free : ∀ qs : List Proxy, qs ⊆ ps → ∀ l ∈ qs.map fun p => utf8 (serde.toWriter p.toJson), (10 : UInt8) ∉ l := by
    intro qs sub l mem
    obtain ⟨p, at_p, rfl⟩ := List.mem_map.1 mem
    rw [feed_mem_utf8]
    exact (carries p (sub at_p)).newline
  obtain ⟨part, rfl⟩ := least
  cases next : ps[n]? with
  | none =>
    have all : ps.length ≤ n := List.getElem?_eq_none_iff.1 next
    rw [List.take_of_length_le (Nat.le_succ_of_le all)] at most
    rw [List.take_of_length_le all] at most ⊢
    obtain rfl : part = [] := by
      have le := most.length_le
      rw [List.length_append] at le
      exact List.eq_nil_of_length_eq_zero (by omega)
    left
    rw [List.append_nil, completeLines, writeNdjson_eq, terminated_flatMap (free ps (List.Subset.refl ps))]
  | some p =>
    have mem : p ∈ ps := List.mem_of_getElem? next
    have more : ps.take (n + 1) = ps.take n ++ [p] := by rw [List.take_add_one, next, Option.toList_some]
    rw [more] at most ⊢
    have last : part <+: utf8 (serde.toWriter p.toJson) ++ [10] := by
      rw [writeNdjson, writeNdjson, List.flatMap_append, List.prefix_append_right_inj, List.flatMap_singleton] at most
      exact most
    have here : (10 : UInt8) ∉ utf8 (serde.toWriter p.toJson) := by
      rw [feed_mem_utf8]
      exact (carries p mem).newline
    have whole := @writeNdjson_eq serde (ps.take n ++ [p])
    rw [writeNdjson_eq (ps.take n), completeLines, whole, List.map_append]
    rcases terminated_part (free (ps.take n) (List.take_subset n ps)) here last with before | with_next
    · exact .inl (by rw [before])
    · exact .inr (by rw [with_next]; rfl)

end Read

/-! ## The command -/

/-- A command that succeeds has saved every proxy of the stream. -/
theorem saved_finished {serde : SerdeJson} {o : Options} {first : Written} {turns : List Turn} (save : o.save = true)
    (done : (writeStream serde o first turns).status = .finished) :
    (writeStream serde o first turns).saved = writeNdjson serde (streamed turns) := by
  cases first with
  | failed after =>
    have still : writeStream serde o (.failed after) turns = begin o (.failed after) := turn_stopped (by simp [begin]) turns
    rw [still] at done
    simp [begin] at done
  | whole =>
    obtain ⟨n, wrote⟩ := @wrote_run serde o (begin o .whole) (by simp [begin]) turns
    obtain ⟨all, -⟩ := wrote.finished done
    have file (qs : List Proxy) : (begin o .whole).saved ++ lines serde o qs = writeNdjson serde qs := by
      rw [lines, if_pos save]
      rfl
    have least := wrote.saved_least
    have most := wrote.saved_most
    rw [file, all, List.take_length] at least
    rw [file, List.take_of_length_le (by omega)] at most
    exact most.eq_of_length (Nat.le_antisymm most.length_le least.length_le)

/-- **What is written is read back.** However the ticks fall and whichever write fails, the sink has a part of the document of the
proxies that the stream gave, and the complete lines of the `--save` file are the proxies that were written, and perhaps the next. A
command that succeeds wrote all of them, and each format is read back. -/
theorem export_reads_back {serde : SerdeJson} (arrays : Arrays serde) (d : Parse.DigitClass) (o : Options) (first : Written) (turns : List Turn) :
    let ps := streamed turns
    let w := writeStream serde o first turns
    w.out <+: utf8 (document serde o.format o.template ps) ∧
      (w.status = .finished → w.out = utf8 (document serde o.format o.template ps) ∧ w.count = ps.length ∧
        Read serde d ps (document serde o.format o.template ps) o.template o.format) ∧
      ((∀ p ∈ ps, serde.Carries p.toJson) → o.save = true →
        (w.status = .finished → readNdjson serde w.saved = some (ps.map Proxy.loaded)) ∧
        ∃ n, (n = w.count ∨ n = w.count + 1) ∧ readNdjson serde (completeLines w.saved) = some ((ps.take n).map Proxy.loaded)) := by
  intro ps w
  cases first with
  | failed after =>
    have still : w = begin o (.failed after) := turn_stopped (by simp [begin]) turns
    have out : w.out <+: utf8 (Emitter.new o.format o.template).prefixText := by
      rw [still]
      exact List.take_prefix after _
    have failed : w.status ≠ .finished := by
      rw [still]
      simp [begin]
    refine ⟨?_, fun done => absurd done failed, ?_⟩
    · rw [document, utf8_append, utf8_append, List.append_assoc]
      exact out.trans (List.prefix_append _ _)
    · intro _ _
      refine ⟨fun done => absurd done failed, 0, .inl (by rw [still]; rfl), ?_⟩
      rw [still]
      rfl
  | whole =>
    obtain ⟨n, wrote⟩ := @wrote_run serde o (begin o .whole) (by simp [begin]) turns
    have count : w.count = n := by rw [show w.count = _ from wrote.counted.1, begin, Nat.zero_add]
    have text : (begin o .whole).out ++ utf8 (items serde (begin o .whole).emitter ps ++ (begin o .whole).emitter.suffix) =
        utf8 (document serde o.format o.template ps) := by
      conv_rhs => rw [document, List.append_assoc, utf8_append]
      rfl
    refine ⟨text ▸ wrote.out_most, ?_, ?_⟩
    · intro done
      obtain ⟨all, out⟩ := wrote.finished done
      exact ⟨out.trans text, count.trans all, read_document arrays d o.format o.template ps⟩
    · intro carries save
      have file (qs : List Proxy) : (begin o .whole).saved ++ lines serde o qs = writeNdjson serde qs := by
        rw [lines, if_pos save]
        rfl
      have least := wrote.saved_least
      have most := wrote.saved_most
      rw [file] at least most
      change _ <+: w.saved at least
      change w.saved <+: _ at most
      constructor
      · intro done
        have saved : w.saved = writeNdjson serde ps := saved_finished save done
        rw [saved, readNdjson_write carries]
      · rcases completeLines_part carries least most with before | with_next
        · refine ⟨n, .inl count.symm, ?_⟩
          rw [before, readNdjson_write fun p mem => carries p (List.mem_of_mem_take mem)]
        · refine ⟨n + 1, .inr (by rw [count]), ?_⟩
          rw [with_next, readNdjson_write fun p mem => carries p (List.mem_of_mem_take mem)]

theorem arrays_compact (vs : List Json) : Arrays (serdeOf vs) := by
  have items (ws : List Json) : compactItems ws = ws.map compact := by
    induction ws with
    | nil => rfl
    | cons w ws ih => rw [compactItems, ih, List.map_cons]
  intro ws
  show compact (.array ws) = _
  rw [compact, items]
  rfl

theorem export_reads_back_saved :
    let w := writeStream savedSerde ⟨.csv, none, true, true⟩ .whole
      [.tick, .proxy savedProxy .whole .whole, .tick, .proxy savedProxy .whole .whole, .done .whole]
    w.count = 2 ∧ readNdjson savedSerde w.saved = some [savedProxy.loaded, savedProxy.loaded] := by
  intro w
  obtain ⟨-, finished, saved⟩ := export_reads_back (arrays_compact _) .least ⟨.csv, none, true, true⟩ .whole
    [.tick, .proxy savedProxy .whole .whole, .tick, .proxy savedProxy .whole .whole, .done .whole]
  have carries : ∀ p ∈ [savedProxy, savedProxy], savedSerde.Carries p.toJson := by
    intro p mem
    obtain rfl : p = savedProxy := by simpa using mem
    exact savedSerde_carries
  exact ⟨(finished rfl).2.1, (saved carries rfl).1 rfl⟩

end Export

end ProxyBroker

import Mathlib
import SiteConfig.Ledger.Basic
import SiteConfig.Proofs.Calendar
import SiteConfig.Proofs.FileTree
import SiteConfig.Proofs.JsonTexts
import SiteConfig.Proofs.Outcome

/-!
# What is recorded in a ledger

A ledger gives back what was written to it: all envelopes in their order, with all their parts
(`SiteConfig.Ledger.appended_events`). This takes three steps. An event is made again from its
record, whatever kind it is of (`SiteConfig.Event.ofJson?_toJson`), and so is an envelope. The
record is written on one line, which is read as the same record. And a text is cut into the lines
that were joined (`SiteConfig.Ledger.lines_join`).

The numbers and times have to be ones that the reader does not refuse
(`SiteConfig.Envelope.Fits`). Nothing is asked of the texts.

The file is missing at first. That is more than to say that the path leads to nothing: a path that
steps back from a directory that is missing leads somewhere as soon as the directory is made, and
there could be a file (`SiteConfig.Ledger.Missing`). Paths that do not step back have no such
surprises (`SiteConfig.Ledger.missing_of_straight`).
-/

namespace SiteConfig

open Json (Readable)

/-! ### Events as records -/

/-- The numbers of an event have at most 64 bits. -/
def Event.Fits : Event → Prop
  | .validationFailed _ => True
  | .importStarted _ _ total => total < 2 ^ 64
  | .stepCompleted number _ => number < 2 ^ 64
  | .stepFailed number _ _ => number < 2 ^ 64
  | .importCompleted steps duration => steps < 2 ^ 64 ∧ duration < 2 ^ 64
  | .importFailed completed total _ duration =>
    completed < 2 ^ 64 ∧ total < 2 ^ 64 ∧ duration < 2 ^ 64

instance : DecidablePred Event.Fits := fun e => by
  cases e <;> unfold Event.Fits <;> infer_instance

/-- An envelope that can be read back: its time is one that can be read, and its event has no number
of more than 64 bits. -/
structure Envelope.Fits (e : Envelope) : Prop where
  time : e.time.Valid
  event : e.event.Fits

instance : DecidablePred Envelope.Fits := fun e =>
  decidable_of_iff (e.time.Valid ∧ e.event.Fits) ⟨fun h => ⟨h.1, h.2⟩, fun h => ⟨h.time, h.event⟩⟩

namespace Json

theorem nat64?_natToJson {n : Nat} (h : n < 2 ^ 64) : nat64? (Event.natToJson n) = some n := by
  rw [Event.natToJson, nat64?, if_pos ⟨Int.natCast_nonneg n, Int.ofNat_lt.2 h⟩, Int.toNat_natCast]

theorem strings?_map (problems : List String) :
    strings? (.array (problems.map .string)) = some problems := by
  rw [strings?, List.mapM_map]
  induction problems with
  | nil => rfl
  | cons p problems ih => rw [List.mapM_cons, ih]; rfl

theorem readable_natToJson {n d : Nat} (h : n < 2 ^ 64) : Readable d (Event.natToJson n) :=
  .int (by omega) (Int.ofNat_lt.2 h)

end Json

namespace Event

section Reading

variable {v r : Json}

theorem ofJson?_validationFailed {problems : Json}
    (h : v.tagged? "type" = some ("validation_failed", r))
    (hr : r.fields? ["errors"] = some [problems]) :
    ofJson? v = do return .validationFailed (← problems.strings?) := by
  unfold ofJson?
  rw [h, Option.bind_eq_bind, Option.bind_some]
  simp only [hr, Option.bind_eq_bind, Option.bind_some]

theorem ofJson?_importStarted {source target total : Json}
    (h : v.tagged? "type" = some ("import_started", r))
    (hr : r.fields? ["source", "target", "total_steps"] = some [source, target, total]) :
    ofJson? v = do
      return .importStarted (← source.asString?) (← target.asString?) (← total.nat64?) := by
  unfold ofJson?
  rw [h, Option.bind_eq_bind, Option.bind_some]
  simp only [hr, Option.bind_eq_bind, Option.bind_some]

theorem ofJson?_stepCompleted {number step : Json}
    (h : v.tagged? "type" = some ("step_completed", r))
    (hr : r.fields? ["number", "step"] = some [number, step]) :
    ofJson? v = do return .stepCompleted (← number.nat64?) (← step.asString?) := by
  unfold ofJson?
  rw [h, Option.bind_eq_bind, Option.bind_some]
  simp only [hr, Option.bind_eq_bind, Option.bind_some]

theorem ofJson?_stepFailed {number step reason : Json}
    (h : v.tagged? "type" = some ("step_failed", r))
    (hr : r.fields? ["number", "step", "error_message"] = some [number, step, reason]) :
    ofJson? v = do
      return .stepFailed (← number.nat64?) (← step.asString?) (← reason.asString?) := by
  unfold ofJson?
  rw [h, Option.bind_eq_bind, Option.bind_some]
  simp only [hr, Option.bind_eq_bind, Option.bind_some]

theorem ofJson?_importCompleted {steps duration : Json}
    (h : v.tagged? "type" = some ("import_completed", r))
    (hr : r.fields? ["steps", "duration_ms"] = some [steps, duration]) :
    ofJson? v = do return .importCompleted (← steps.nat64?) (← duration.nat64?) := by
  unfold ofJson?
  rw [h, Option.bind_eq_bind, Option.bind_some]
  simp only [hr, Option.bind_eq_bind, Option.bind_some]

theorem ofJson?_importFailed {completed total reason duration : Json}
    (h : v.tagged? "type" = some ("import_failed", r))
    (hr : r.fields? ["completed_steps", "total_steps", "error_message", "duration_ms"]
      = some [completed, total, reason, duration]) :
    ofJson? v = do
      return .importFailed (← completed.nat64?) (← total.nat64?) (← reason.asString?)
        (← duration.nat64?) := by
  unfold ofJson?
  rw [h, Option.bind_eq_bind, Option.bind_some]
  simp only [hr, Option.bind_eq_bind, Option.bind_some]

end Reading

/-- **An event is made again** from its record. -/
theorem ofJson?_toJson {e : Event} (h : e.Fits) : ofJson? e.toJson = some e := by
  cases e with
  | validationFailed problems =>
    rw [ofJson?_validationFailed rfl rfl, Json.strings?_map]
    rfl
  | importStarted source target total =>
    rw [ofJson?_importStarted rfl rfl, Json.nat64?_natToJson h]
    rfl
  | stepCompleted number step =>
    rw [ofJson?_stepCompleted rfl rfl, Json.nat64?_natToJson h]
    rfl
  | stepFailed number step reason =>
    rw [ofJson?_stepFailed rfl rfl, Json.nat64?_natToJson h]
    rfl
  | importCompleted steps duration =>
    rw [ofJson?_importCompleted rfl rfl, Json.nat64?_natToJson h.1, Json.nat64?_natToJson h.2]
    rfl
  | importFailed completed total reason duration =>
    rw [ofJson?_importFailed rfl rfl, Json.nat64?_natToJson h.1, Json.nat64?_natToJson h.2.1,
      Json.nat64?_natToJson h.2.2]
    rfl

/-- The record of an event is read back. -/
theorem readable_toJson {e : Event} (h : e.Fits) : Readable 127 e.toJson := by
  cases e with
  | validationFailed problems =>
    refine .object (by decide) fun m hm => ?_
    rcases List.mem_cons.1 hm with rfl | hm
    · exact .string _
    · obtain rfl := List.mem_singleton.1 hm
      refine .array (by decide) fun v hv => ?_
      obtain ⟨p, -, rfl⟩ := List.mem_map.1 hv
      exact .string p
  | importStarted source target total =>
    refine .object (by decide) ?_
    simp only [List.forall_mem_cons, List.not_mem_nil, false_imp_iff, implies_true, and_true]
    exact ⟨.string _, .string _, .string _, Json.readable_natToJson h⟩
  | stepCompleted number step =>
    refine .object (by decide) ?_
    simp only [List.forall_mem_cons, List.not_mem_nil, false_imp_iff, implies_true, and_true]
    exact ⟨.string _, Json.readable_natToJson h, .string _⟩
  | stepFailed number step reason =>
    refine .object (by decide) ?_
    simp only [List.forall_mem_cons, List.not_mem_nil, false_imp_iff, implies_true, and_true]
    exact ⟨.string _, Json.readable_natToJson h, .string _, .string _⟩
  | importCompleted steps duration =>
    refine .object (by decide) ?_
    simp only [List.forall_mem_cons, List.not_mem_nil, false_imp_iff, implies_true, and_true]
    exact ⟨.string _, Json.readable_natToJson h.1, Json.readable_natToJson h.2⟩
  | importFailed completed total reason duration =>
    refine .object (by decide) ?_
    simp only [List.forall_mem_cons, List.not_mem_nil, false_imp_iff, implies_true, and_true]
    exact ⟨.string _, Json.readable_natToJson h.1, Json.readable_natToJson h.2.1, .string _,
      Json.readable_natToJson h.2.2⟩

end Event

namespace Envelope

/-- What is read of a record with the fields of an envelope. -/
theorem ofJson?_record {v event : Json} {id time run version : String} {t : Timestamp} {e : Event}
    (h : v.fields? ["event_id", "timestamp", "run_id", "cli_version", "event"]
      = some [.string id, .string time, .string run, .string version, event])
    (htime : Timestamp.parse? time = some t) (hevent : Event.ofJson? event = some e) :
    ofJson? v = some ⟨id, t, run, version, e⟩ := by
  unfold ofJson?
  rw [h]
  simp only [Option.bind_eq_bind, Option.bind_some, Json.asString?, htime, hevent]
  rfl

/-- **An envelope is made again** from its record. -/
theorem ofJson?_toJson {e : Envelope} (h : e.Fits) : ofJson? e.toJson = some e :=
  ofJson?_record rfl h.time.parse?_text (Event.ofJson?_toJson h.event)

theorem readable_toJson {e : Envelope} (h : e.Fits) : Readable Json.maxDepth e.toJson := by
  refine .object (by decide) ?_
  simp only [List.forall_mem_cons, List.not_mem_nil, false_imp_iff, implies_true, and_true]
  exact ⟨.string _, .string _, .string _, .string _, Event.readable_toJson h.event⟩

/-- The text of an envelope is a line that is read back. -/
theorem read?_compact {e : Envelope} (h : e.Fits) :
    (Json.read? e.toJson.compact).bind ofJson? = some e := by
  rw [(readable_toJson h).read?_compact, Option.bind_some, ofJson?_toJson h]

end Envelope

/-! ### Lines -/

namespace Ledger

open Json (OneLine)

/-- A line that does not end with a carriage return is kept whole. -/
theorem lines_go_line {cs : List Char} {c : Char} (hcs : '\n' ∉ cs ++ [c]) (hc : c ≠ '\x0d')
    (acc rest : List Char) :
    lines.go acc (cs ++ [c] ++ '\n' :: rest) = (acc.reverse ++ cs ++ [c]) :: lines.go [] rest := by
  induction cs generalizing acc with
  | nil =>
    rw [List.nil_append, List.singleton_append, lines.go, lines.go]
    · simp
    · intro l h
      exact hc (List.cons.inj h).1
    · exact fun h => hcs (h ▸ List.mem_cons_self)
  | cons x cs ih =>
    rw [List.cons_append, List.mem_cons, not_or] at hcs
    rw [List.cons_append, List.cons_append, lines.go, ih hcs.2]
    · simp
    · exact fun h => hcs.1 h.symm

/-- The text of an envelope has a brace at either end. -/
theorem exists_braces (e : Envelope) :
    ∃ cs, e.toJson.compact.toList = '\x7b' :: (cs ++ ['\x7d']) := by
  rw [Envelope.toJson, Json.toList_object, ← List.append_assoc]
  exact ⟨_, rfl⟩

/-- **The lines of a ledger** are the texts of its envelopes. -/
theorem lines_join {es : List Envelope} (h : ∀ e ∈ es, e.Fits) :
    lines (String.join (es.map line)).toList = es.map fun e => e.toJson.compact.toList := by
  unfold lines
  induction es with
  | nil => rfl
  | cons e es ih =>
    obtain ⟨cs, hcs⟩ := exists_braces e
    have hline := (Envelope.readable_toJson (h e List.mem_cons_self)).oneLine
    have hbreak : '\n' ∉ '\x7b' :: cs ++ ['\x7d'] := by
      intro hmem
      rw [hcs] at hline
      exact absurd (hline _ hmem) (by decide)
    have htext : (String.join ((e :: es).map line)).toList
        = '\x7b' :: cs ++ ['\x7d'] ++ '\n' :: (String.join (es.map line)).toList := by
      rw [List.map_cons, String.join_cons, line, String.toList_append, String.toList_append, hcs]
      simp
    rw [htext, lines_go_line hbreak (by decide), ih fun x hx => h x (List.mem_cons_of_mem e hx),
      List.map_cons, hcs]
    rfl

/-- **What is written to a ledger is read.** -/
theorem ofText?_join {es : List Envelope} (h : ∀ e ∈ es, e.Fits) :
    ofText? (String.join (es.map line)) = some es := by
  have hfilter : (es.map fun e => e.toJson.compact.toList).filter (fun l => !l.all Text.isBlank)
      = es.map fun e => e.toJson.compact.toList := by
    refine List.filter_eq_self.2 fun l hl => ?_
    obtain ⟨e, -, rfl⟩ := List.mem_map.1 hl
    obtain ⟨cs, hcs⟩ := exists_braces e
    rw [hcs]
    rfl
  rw [ofText?, lines_join h, hfilter, List.mapM_map]
  clear hfilter
  induction es with
  | nil => rfl
  | cons e es ih =>
    have hread := Envelope.read?_compact (h e List.mem_cons_self)
    rw [List.mapM_cons, ih fun x hx => h x (List.mem_cons_of_mem e hx)]
    simp only [Function.comp, String.ofList_toList, hread]
    rfl

/-! ### Appending -/

section Appending

variable {l : Ledger} {t t' g : FileTree} {p : Place} {e : Envelope} {es : List Envelope}

/-- What is done before the file is opened: the directories on the way to it are made. -/
def prepare (l : Ledger) (t : FileTree) : Except OsError FileTree :=
  match Path.parent? l.path with
  | some dir => t.makeDirectories l.workingDir dir
  | none => .ok t

/-- The text that is in the file. -/
def oldText (l : Ledger) (t : FileTree) : String :=
  match t.content l.workingDir l.path with
  | .ok c => c.text?.getD ""
  | .error _ => ""

theorem append_eq (l : Ledger) (e : Envelope) (t : FileTree) : l.append e t =
    match l.prepare t with
    | .ok g =>
      match g.writeFile l.workingDir l.path (.text (l.oldText g ++ line e)) with
      | .ok t' => (.ok (), t')
      | .error err => (.error (osFailure err "Failed to open ledger file"), g)
    | .error err => (.error (osFailure err "Failed to create ledger parent directory"), t) := by
  unfold append prepare
  rcases Path.parent? l.path with _ | dir
  · rfl
  · rcases h : t.makeDirectories l.workingDir dir with err | g
    · simp only [bind, Attempt.andThen, h]
    · simp only [bind, Attempt.andThen, h]
      rfl

/-- **There is no file** at the path of a ledger, nor is there one when the directories on the way
have been made. -/
structure Missing (l : Ledger) (t : FileTree) : Prop where
  now : t.exists? l.workingDir l.path = false
  prepared : ∀ g, l.prepare t = .ok g → ∀ c, g.content l.workingDir l.path ≠ .ok c

/-- **The file of a ledger** holds the lines of some envelopes, and its directory is there. -/
structure Stores (l : Ledger) (t : FileTree) (p : Place) (es : List Envelope) : Prop where
  wellFormed : t.WellFormed
  resolve : t.resolve l.workingDir l.path = .ok p
  file : t.get? p = some (.file (.text (String.join (es.map line))))
  prepared : l.prepare t = .ok t

theorem Stores.events (h : l.Stores t p es) (hfits : ∀ e ∈ es, e.Fits) : l.events t = .ok es := by
  have hcontent := FileTree.content_eq_ok_iff.2 ⟨p, h.resolve, h.file⟩
  have hnode := FileTree.node?_eq_ok_iff.2 ⟨p, h.resolve, h.file⟩
  have hthere : t.exists? l.workingDir l.path = true := by
    rw [FileTree.exists?, hnode]
    rfl
  have htext : t.readText l.workingDir l.path = .ok (String.join (es.map line)) := by
    rw [FileTree.readText, hcontent]
    rfl
  rw [Ledger.events, hthere, htext]
  simp only [Bool.not_true, Bool.false_eq_true, if_false, ofText?_join hfits]

theorem events_of_missing (h : t.exists? l.workingDir l.path = false) : l.events t = .ok [] := by
  rw [events, h]
  rfl

/-- Preparing lets the tree grow, and need not be done again. -/
theorem grows_prepare (ht : t.WellFormed) (h : l.prepare t = .ok g) :
    t.Grows g ∧ ∀ t', g.Keeps t' → l.prepare t' = .ok t' := by
  unfold prepare at h ⊢
  rcases hparent : Path.parent? l.path with _ | dir <;> simp only [hparent] at h ⊢
  · cases h
    exact ⟨.refl ht, fun _ _ => trivial⟩
  · by_cases hdir : dir = ""
    · subst hdir
      cases h
      exact ⟨.refl ht, fun _ _ => rfl⟩
    · obtain ⟨hgrow, q, hq⟩ := FileTree.grows_makeDirectories ht hdir h
      exact ⟨hgrow, fun t' hk => FileTree.makeDirectories_of_leads hdir (hq.of_keeps hk)⟩

/-- A file that a straight path leads to later was there before, if its place was there. -/
theorem resolve_of_straight {wd : Place} {path : String} (ht : t.WellFormed)
    (hpath : FileTree.Straight path) {c : FileContent} (hp : t.get? p = some (.file c))
    (hp' : t'.get? p = some (.file c)) (h : t'.resolve wd path = .ok p) :
    t.resolve wd path = .ok p := by
  have hfold : ∀ (names : List String) (q : Place), ".." ∉ names →
      names.foldlM t'.step q = .ok p → names.foldlM t.step q = .ok p := by
    intro names
    induction names with
    | nil => exact fun q _ h => h
    | cons x names ih =>
      intro q hnames hsteps
      have hprefix := FileTree.prefix_of_foldlM_step hnames hsteps
      rw [List.foldlM_cons] at hsteps ⊢
      rcases hx : t'.step q x with e | m <;> rw [hx] at hsteps
      · cases hsteps
      · -- the file is no step on the way to itself, so that the way was there before
        have hdir' := FileTree.directory_of_step hx
        have hne : q ≠ p := by
          rintro rfl
          rw [hp'] at hdir'
          cases hdir'
        have hbefore : q <+: p.dropLast := by
          obtain ⟨r, hr⟩ := hprefix
          rcases List.eq_nil_or_concat r with rfl | ⟨r, y, rfl⟩
          · exact absurd ((List.append_nil q).symm.trans hr) hne
          · rw [← hr, List.concat_eq_append, ← List.append_assoc, List.dropLast_concat]
            exact List.prefix_append _ _
        have hdir := ht.directory_of_prefix (ht.inside p _ hp) hbefore
        rw [FileTree.step_congr hdir hdir', hx]
        exact ih m (fun hmem => hnames (List.mem_cons_of_mem _ hmem)) hsteps
  unfold FileTree.resolve at h ⊢
  split at h
  · cases h
  · rename_i hne
    rw [if_neg hne]
    split at h
    · cases h
    · rename_i hnul
      rw [if_neg hnul]
      exact hfold _ _ hpath h

/-- **A path that does not step back** leads to no file later if it leads to none now. -/
theorem missing_of_straight (ht : t.WellFormed) (hpath : FileTree.Straight l.path)
    (h : t.exists? l.workingDir l.path = false) : l.Missing t where
  now := h
  prepared g hg c hc := by
    obtain ⟨p, hp, hfile⟩ := FileTree.content_eq_ok_iff.1 hc
    have hthere : t.get? p = some (.file c) := by
      rcases (grows_prepare ht hg).1.new p _ hfile with hold | ⟨-, hdir⟩
      · exact hold
      · cases hdir
    have hnode := FileTree.node?_eq_ok_iff.2
      ⟨p, resolve_of_straight ht hpath hthere hfile hp, hthere⟩
    rw [FileTree.exists?, hnode] at h
    cases h

/-- **One envelope more**: once there is a file, appending works, and the file has one line more. -/
theorem Stores.append (h : l.Stores t p es) (e : Envelope) :
    ∃ t', l.append e t = (.ok (), t') ∧ l.Stores t' p (es ++ [e]) := by
  have hold : l.oldText t = String.join (es.map line) := by
    rw [oldText, FileTree.content_eq_ok_iff.2 ⟨p, h.resolve, h.file⟩]
    rfl
  have hwrite : t.writeFile l.workingDir l.path (.text (l.oldText t ++ line e))
      = .ok (t.put p (.file (.text (l.oldText t ++ line e)))) := by
    unfold FileTree.writeFile
    rw [h.resolve]
    simp only [bind, Except.bind, h.file]
  obtain ⟨q, hq, hdir, -, hwf⟩ := FileTree.exists_of_writeFile h.wellFormed hwrite
  obtain rfl : p = q := Except.ok.inj (h.resolve.symm.trans hq)
  have hkeeps := FileTree.keeps_put hdir (.file (.text (l.oldText t ++ line e)))
  refine ⟨_, ?_, hwf, FileTree.resolve_of_keeps hkeeps h.resolve, ?_,
    (grows_prepare h.wellFormed h.prepared).2 _ hkeeps⟩
  · rw [append_eq, h.prepared]
    simp only [hwrite]
  · rw [FileTree.get?_put _ (FileTree.ne_nil_of_get?_ne hdir), if_pos rfl, hold, List.map_append,
      String.join_append]
    simp

/-- **The first envelope**: when it can be appended, there is a file with its line. -/
theorem Missing.append (h : l.Missing t) (ht : t.WellFormed) (hok : (l.append e t).1 = .ok ()) :
    ∃ t' p, l.append e t = (.ok (), t') ∧ l.Stores t' p [e] := by
  rw [append_eq] at hok ⊢
  rcases hg : l.prepare t with err | g <;> rw [hg] at hok
  · cases hok
  rcases hw : g.writeFile l.workingDir l.path (.text (l.oldText g ++ line e)) with err | t'
  · simp only [hw] at hok
    cases hok
  obtain ⟨hgrow, hagain⟩ := grows_prepare ht hg
  obtain ⟨p, hp, hdir, rfl, hwf'⟩ := FileTree.exists_of_writeFile hgrow.wellFormed hw
  have hkeeps := FileTree.keeps_put hdir (.file (.text (l.oldText g ++ line e)))
  have hold : l.oldText g = "" := by
    unfold oldText
    split
    · rename_i c hc
      exact absurd hc (h.prepared g hg c)
    · rfl
  refine ⟨_, p, by simp only [hw], hwf', FileTree.resolve_of_keeps hkeeps hp, ?_, hagain _ hkeeps⟩
  rw [FileTree.get?_put _ (FileTree.ne_nil_of_get?_ne hdir), if_pos rfl, hold]
  simp

/-- Adds envelopes at the end, one after the other. -/
def appendAll (l : Ledger) : List Envelope → Attempt FileTree Failure Unit
  | [] => pure ()
  | e :: es => do
    l.append e
    l.appendAll es

/-- **Any number of envelopes** can be appended once there is a file. -/
theorem Stores.appendAll (h : l.Stores t p es) (more : List Envelope) :
    ∃ t', l.appendAll more t = (.ok (), t') ∧ l.Stores t' p (es ++ more) := by
  induction more generalizing t es with
  | nil => exact ⟨t, rfl, by rwa [List.append_nil]⟩
  | cons e more ih =>
    obtain ⟨t₁, happend, h₁⟩ := h.append e
    obtain ⟨t₂, hmore, h₂⟩ := ih h₁
    refine ⟨t₂, ?_, by rwa [List.append_assoc, List.singleton_append] at h₂⟩
    rw [Ledger.appendAll, Attempt.bind_apply, happend]
    exact hmore

end Appending

/-! ### The ledger of a site -/

/-- The ledger at the path that is the default. -/
def ofSite : Ledger := ⟨".cfgsync/import_log.jsonl", []⟩

/-- The files of a site whose ledger holds some envelopes. -/
def holding (es : List Envelope) : FileTree :=
  ⟨[([".cfgsync"], .directory),
    ([".cfgsync", "import_log.jsonl"], .file (.text (String.join (es.map line))))]⟩

theorem stores_holding (es : List Envelope) :
    ofSite.Stores (holding es) [".cfgsync", "import_log.jsonl"] es where
  wellFormed := by
    have hnodup : [[".cfgsync"], [".cfgsync", "import_log.jsonl"]].Nodup := by decide
    refine FileTree.wellFormed_iff.2 ⟨hnodup, ?_⟩
    simp only [holding, List.forall_mem_cons, List.not_mem_nil, false_imp_iff, implies_true,
      and_true]
    exact ⟨rfl, rfl⟩
  resolve := rfl
  file := rfl
  prepared := rfl

/-- Envelopes of all kinds. There are line breaks, quotes, control characters and characters of
several bytes, numbers of 64 bits, a leap second, and times before the year 1970 and after the year
9999. -/
def troubled : List Envelope :=
  [⟨"a", ⟨-1, 999999999⟩, "summer", programVersion, .importStarted "sync" "active\\\"" 2⟩,
    ⟨"", ⟨78796799, 1500000000⟩, "autumn", "", .validationFailed ["first\nsecond", "\r", ""]⟩,
    ⟨"c", ⟨200, 5000000⟩, "summer", programVersion, .stepCompleted 1 "größer \u2028 日本 😀"⟩,
    ⟨"d", ⟨200, 5000⟩, "summer", programVersion, .stepFailed 2 "\x00\x1b\x7f" "no\n\tway"⟩,
    ⟨"e", ⟨253402300800, 0⟩, "summer", programVersion, .importFailed 1 2 "\n" 18446744073709551615⟩,
    ⟨"f", ⟨0, 0⟩, "", programVersion, .importCompleted 18446744073709551615 0⟩]

theorem fits_troubled : ∀ e ∈ troubled, e.Fits := by decide +kernel

theorem missing_empty : ofSite.Missing .empty :=
  missing_of_straight FileTree.wellFormed_empty (by decide +kernel) (by decide +kernel)

/-! ### Reading what was appended -/

/-- **What is appended is what is read.** When the first of some envelopes can be appended to a
ledger without a file, all of them can, and then they are its events: all of them in order, the last
ones, and those of each run. -/
theorem appended_events {l : Ledger} {t : FileTree} {es : List Envelope} (ht : t.WellFormed)
    (hmissing : l.Missing t) (hfits : ∀ e ∈ es, e.Fits)
    (hfirst : ∀ e ∈ es.head?, (l.append e t).1 = .ok ()) :
    ∃ t', l.appendAll es t = (.ok (), t') ∧ l.events t' = .ok es ∧
      l.history t' none = .ok es ∧
      (∀ n, ∃ last, l.history t' (some n) = .ok last ∧ last <:+ es ∧
        last.length = min n es.length) ∧
      ∀ run, l.runEvents t' run = .ok (es.filter (·.run == run)) := by
  have hevents : ∃ t', l.appendAll es t = (.ok (), t') ∧ l.events t' = .ok es := by
    cases es with
    | nil => exact ⟨t, rfl, events_of_missing hmissing.now⟩
    | cons e es =>
      obtain ⟨t₁, p, happend, h₁⟩ := hmissing.append ht (hfirst e rfl)
      obtain ⟨t₂, hmore, h₂⟩ := h₁.appendAll es
      refine ⟨t₂, ?_, h₂.events hfits⟩
      rw [Ledger.appendAll, Attempt.bind_apply, happend]
      exact hmore
  obtain ⟨t', happend, hes⟩ := hevents
  refine ⟨t', happend, hes, ?_, fun n => ⟨es.drop (es.length - n), ?_, List.drop_suffix _ _, ?_⟩,
    fun run => ?_⟩
  · rw [history, hes]
    rfl
  · rw [history, hes]
    rfl
  · rw [List.length_drop]
    omega
  · rw [runEvents, hes]
    rfl

theorem appended_events_troubled :
    FileTree.empty.WellFormed ∧ ofSite.Missing .empty ∧ (∀ e ∈ troubled, e.Fits) ∧
      (∀ e ∈ troubled.head?, (ofSite.append e .empty).1 = .ok ()) ∧
      ∃ t, ofSite.appendAll troubled .empty = (.ok (), t) ∧ ofSite.events t = .ok troubled := by
  have hfirst : ∀ e ∈ troubled.head?, (ofSite.append e .empty).1 = .ok () := by
    intro e he
    cases he
    exact eq_ok_of_toOption (by decide +kernel)
  obtain ⟨t, happend, hevents, -⟩ :=
    appended_events FileTree.wellFormed_empty missing_empty fits_troubled hfirst
  exact ⟨FileTree.wellFormed_empty, missing_empty, fits_troubled, hfirst, t, happend, hevents⟩

end Ledger

end SiteConfig

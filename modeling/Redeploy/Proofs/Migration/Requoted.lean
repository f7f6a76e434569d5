import Redeploy.Proofs.Block.Made
import Redeploy.Proofs.Call.Receiver
import Redeploy.Proofs.Migration.Rebinding
import Redeploy.Proofs.Script.Origin
import Redeploy.Proofs.Script.StringNodes

set_option autoImplicit false

/-! # Strings that are written anew

A replacement is put together from expressions of the script, which are kept as they are written, and
from a few strings that are written as literals anew. `Requoted` lists these: the slug of a block, the
entrypoint joined with the path, the default entrypoint, and the image of a block. All but the default
are strings of literals in the script, joined or as they are read.

What is written anew is read back and evaluates to the same string, on one line. So it evaluates to what
the literal in the script evaluates to, but for one case (`requoted_strings`): the language takes the
ends of the lines within a literal for line feeds, and reading a literal does not
(`requoted_line_end`). -/

namespace Redeploy

namespace CallSite

open Redeploy.Expr (IsLastValue)

variable {config : Config} {args : List Expr} {keywords : List (Keyword Expr)}
  {env : Option Environment} {arg value : String} {e v : Expr}

/-! ## New strings of a replacement -/

theorem mem_keywords_of_isLastValue (h : IsLastValue keywords arg v) : ⟨some arg, v⟩ ∈ keywords := by
  obtain ⟨before, behind, rfl, -⟩ := h
  simp

/-- What a deprecated call supplies for a key is one of its arguments, or the image of the block. -/
theorem Supplies.cases {key : CallKey} (h : Supplies config args keywords env key v) :
    (∃ image, IsInjected config env image ∧ v = .literal image) ∨ v ∈ args ∨
      ∃ kw ∈ keywords, kw.value = v := by
  have hkeyword : ∀ {arg}, IsLastValue keywords arg v → ∃ kw ∈ keywords, kw.value = v :=
    fun h => ⟨_, mem_keywords_of_isLastValue h, rfl⟩
  cases key
  case name =>
    rcases h with h | ⟨-, h, -⟩
    · exact .inr (.inr (hkeyword h))
    · exact .inr (.inl (List.mem_of_getElem? h))
  case jobVariables =>
    rcases h with h | ⟨-, h⟩
    · exact .inr (.inr (hkeyword h))
    · exact .inr (.inr (hkeyword h))
  case image =>
    rcases h with h | ⟨-, h⟩
    · exact .inl h
    · exact .inr (.inr (hkeyword h))
  all_goals exact .inr (.inr (hkeyword h))

theorem IsSubject.mem {subject : Expr} (h : IsSubject args keywords subject) :
    subject ∈ args ∨ ∃ kw ∈ keywords, kw.value = subject := by
  obtain ⟨h | ⟨-, h⟩, -⟩ := h
  · exact .inr ⟨_, mem_keywords_of_isLastValue h, rfl⟩
  · exact .inl (List.mem_of_head? h)

end CallSite

namespace Migration

open Syntax (Tree)
open Redeploy.Script (IsLiteralIn)
open CallSite (Gives IsLabel Describes)

variable {script : Script}

/-! ## Values in a scope -/

/-- A value that a node binds is lowered from a node below it. -/
theorem exists_of_assigned_mem_bindings {source : Text} {x : Tree} {name : String} {value : Expr}
    (h : .assigned name value ∈ bindings source x) :
    ∃ y ∈ x.nodes, value = Script.lower source y := by
  have htarget : ∀ {r}, Binding.assigned name value ∉ forgottenIn source r x := by
    intro r h
    obtain ⟨_, -, _, -, heq⟩ := mem_forgottenIn.1 h
    simp at heq
  unfold bindings at h
  split at h
  case h_10 =>
    split at h
    · next hassigned =>
      obtain ⟨rfl, rfl⟩ := Binding.assigned.inj (List.mem_singleton.1 h)
      unfold Script.assignmentTarget? at hassigned
      split at hassigned
      · split at hassigned
        · next hright =>
          split at hassigned
          · obtain ⟨-, rfl⟩ := Prod.mk.inj (Option.some.inj hassigned)
            exact ⟨_, Tree.mem_nodes.2 (.inr ⟨_, mem_children_of_child? hright, Tree.self_mem_nodes _⟩), rfl⟩
          · simp at hassigned
        · simp at hassigned
      · simp at hassigned
    · exact absurd h htarget
  all_goals first | exact absurd h htarget | simp at h

/-- What a scope has for a name, where a walk comes to a node, is lowered from a node of the script. -/
theorem exists_of_assignment? (hnested : script.root.Nested) {a : Arrival}
    (ha : a ∈ Script.arrivals script) {name : String} {value : Expr}
    (h : a.scope.assignment? name = some value) :
    ∃ x ∈ script.root.nodes, value = Script.lower script.source x := by
  obtain ⟨past, future, hcut, ⟨hnone, -⟩ | ⟨before, e, behind, rfl, hname, -, hvalue, -⟩⟩ :=
    nothing_or_last hnested ha name
  · simp [hnone] at h
  · rw [hvalue] at h
    have he : e ∈ heededIn script := by
      rw [hcut.eq]
      simp
    obtain ⟨hx, hb⟩ := mem_outerNodes_of_mem_heeded he
    cases hbinding : e.binding with
    | assigned name' value' =>
      rw [hbinding] at h hb
      obtain rfl := Option.some.inj h
      obtain ⟨y, hy, heq⟩ := exists_of_assigned_mem_bindings hb
      exact ⟨y, Tree.mem_nodes_trans (mem_nodes_of_mem_outerNodes hx) hy, heq⟩
    | imported | forgotten => simp [hbinding, Binding.value?] at h

/-- The assignments of a scope lead from an expression of the script to expressions of the script. -/
theorem exists_of_leadsTo {s : Scope}
    (hs : ∀ name value, s.assignment? name = some value →
      ∃ x ∈ script.root.nodes, value = Script.lower script.source x)
    {k : Nat} {e v : Expr} (h : Catalog.LeadsTo s k e v)
    (he : ∃ x ∈ script.root.nodes, e = Script.lower script.source x) :
    ∃ x ∈ script.root.nodes, v = Script.lower script.source x := by
  induction h with
  | refl => exact he
  | step hvalue _ ih => exact ih (hs _ _ hvalue)

/-! ## What is written anew -/

/-- The keyword arguments of a call lead to a call of the script that makes a block with an image, which
    is a literal there. -/
def MakesImage (script : Script) (s : Scope) (keywords : List (Keyword Expr)) (image : String) : Prop :=
  ∃ e k func args keywords' span v, Gives keywords "infrastructure" e ∧
    Catalog.LeadsTo s k e (.call func args keywords' span) ∧ ⟨some "image", v⟩ ∈ keywords' ∧
    IsLiteralIn script.source script.root image v

/-- Where the walk meets a call, and what is known there. -/
def Met.context (m : Met) (setting : Setting) (script : Script) : CallContext :=
  ⟨script.file, m.scope, setting.resolver, setting.config⟩

/-- A string is written as a literal where a call is replaced. -/
inductive Requoted (setting : Setting) (script : Script) (m : Met) (subject : Expr)
    (keywords : List (Keyword Expr)) : String → Prop where
  /-- It is the slug of the block that the code comes from. -/
  | slug {value : String} {e : Expr} (hstorage : Gives keywords "storage" e)
    (hread : IsLiteralIn script.source m.call value e) : Requoted setting script m subject keywords value
  /-- It is the entrypoint, joined with the path. -/
  | joined {base path joined : String} {b p : Expr} (hbase : Gives keywords "path" b)
    (hb : IsLiteralIn script.source m.call base b) (hpath : Gives keywords "entrypoint" p)
    (hp : IsLiteralIn script.source m.call path p) (hjoined : Joined base path joined) :
    Requoted setting script m subject keywords joined
  /-- It is the script with the name of the flow, for there is no entrypoint. -/
  | default {label : String} (hnone : ¬ ∃ e, Gives keywords "entrypoint" e)
    (hlabel : IsLabel subject label) :
    Requoted setting script m subject keywords (script.file ++ ":" ++ label)
  /-- It is the image of the block that the flow runs on; with a catalog, it is stored there or a literal
      of the script. -/
  | image {image : String} {d : Document}
    (hd : Describes (m.context setting script) keywords .executionEnvironment d)
    (himage : d.HasImage image)
    (horigin : ∀ catalog : Catalog, setting.resolver = catalog.resolver →
      (∃ slug, catalog.find? slug = some d) ∨ MakesImage script m.scope keywords image) :
    Requoted setting script m subject keywords image

section Call

variable {setting : Setting} {m : Met} {func subject : Expr} {args : List Expr}
  {keywords : List (Keyword Expr)} {span : Option Span} {value : String}

theorem exists_of_gives (hcall : Script.lower script.source m.call = .call func args keywords span)
    {arg : String} {e : Expr} (he : Gives keywords arg e) :
    ∃ x ∈ m.call.nodes, e = Script.lower script.source x :=
  Script.exists_of_mem_keywords hcall (CallSite.mem_keywords_of_isLastValue he.1)

/-- A literal that a call gives for a name stands in the call. -/
theorem isLiteralIn_of_gives (hcall : Script.lower script.source m.call = .call func args keywords span)
    {arg : String} {raw : Option String} {s : Option Span} (he : Gives keywords arg (.string value raw s)) :
    IsLiteralIn script.source m.call value (.string value raw s) := by
  obtain ⟨x, hx, heq⟩ := exists_of_gives hcall he
  obtain ⟨y, hy, h⟩ := Script.isLiteralIn_of_lower heq.symm
  exact ⟨y, Tree.mem_nodes_trans hx hy, h⟩

/-- An image that is known of the block that a call runs on comes from where it should. -/
theorem requoted_of_describes (hnested : script.root.Nested)
    (hm : m ∈ (walk script.source false script.root .empty).1)
    (hcall : Script.lower script.source m.call = .call func args keywords span) {d : Document}
    (hd : Describes (m.context setting script) keywords .executionEnvironment d)
    (himage : d.HasImage value) : Requoted setting script m subject keywords value := by
  refine .image hd himage fun catalog hcatalog => ?_
  cases hd with
  | stored hnames hload =>
    have hload : setting.resolver.load _ = .ok (some d) := hload
    rw [hcatalog] at hload
    exact .inl ⟨_, Except.ok.inj hload⟩
  | @bound e _ hlast hnone _ _ hbound =>
    have hbound : setting.resolver.resolveBound e m.scope = some d := hbound
    rw [hcatalog] at hbound
    obtain hstored | ⟨k, func', args', keywords', span', raw, s, hlead, hmem⟩ :=
      Catalog.exists_of_resolveBound hbound himage
    · exact .inl hstored
    -- the block is made by a call of the script, and what the call has for its image is a literal
    have hgives : Gives keywords "infrastructure" e := ⟨hlast, hnone⟩
    rw [met_eq] at hm
    obtain ⟨a, ha, rfl⟩ := List.mem_map.1 hm
    obtain ⟨ha, -⟩ := List.mem_filter.1 ha
    obtain ⟨x, hx, heq⟩ := exists_of_gives hcall hgives
    obtain ⟨y, hy, heq⟩ := exists_of_leadsTo (fun name value => exists_of_assignment? hnested ha) hlead
      ⟨x, Tree.mem_nodes_trans (node_mem_of_mem_arrivals ha) hx, heq⟩
    obtain ⟨z, hz, hliteral⟩ := Script.exists_of_mem_keywords heq.symm hmem
    obtain ⟨w, hw, h⟩ := Script.isLiteralIn_of_lower hliteral.symm
    exact .inr ⟨e, k, func', args', keywords', span', _, hgives, hlead, hmem, w,
      Tree.mem_nodes_trans hy (Tree.mem_nodes_trans hz hw), h⟩

/-- What is new in what a replacement is a call of is written anew. -/
theorem requoted_of_isReceiver
    (hcall : Script.lower script.source m.call = .call func args keywords span)
    (hsubject : subject.newStrings = []) (hkeywords : ∀ kw ∈ keywords, kw.value.newStrings = [])
    {receiver : Expr} (h : CallSite.IsReceiver (m.context setting script) subject keywords receiver)
    (hvalue : value ∈ receiver.newStrings) : Requoted setting script m subject keywords value := by
  have hgiven : ∀ {arg e}, Gives keywords arg e → value ∉ e.newStrings := by
    intro arg e he
    rw [hkeywords _ (CallSite.mem_keywords_of_isLastValue he.1)]
    exact List.not_mem_nil
  cases h with
  | flow => simp [hsubject] at hvalue
  | fetched hstorage hsource hentrypoint =>
    rcases Expr.mem_newStrings_call.1 hvalue with hvalue | ⟨e, he, -⟩ | ⟨kw, hkw, hvalue⟩
    · simp [Expr.newStrings, hsubject] at hvalue
    · simp at he
    simp only [List.mem_cons, List.not_mem_nil, or_false] at hkw
    rcases hkw with rfl | rfl
    · cases hsource with
      | loaded slug =>
        obtain rfl : value = slug := by
          simpa [Expr.newStrings, Expr.newStringsArgs, Expr.newStringsKeywords, Expr.literal] using hvalue
        exact .slug hstorage (isLiteralIn_of_gives hcall hstorage)
      | bound => exact absurd hvalue (hgiven hstorage)
    · cases hentrypoint with
      | @joined base path joined _ _ _ _ hbase hpath hjoined =>
        obtain rfl : value = joined := by simpa [Expr.newStrings, Expr.literal] using hvalue
        exact .joined hbase (isLiteralIn_of_gives hcall hbase) hpath (isLiteralIn_of_gives hcall hpath)
          hjoined
      | explicit hgives => exact absurd hvalue (hgiven hgives)
      | @default label hnone hlabel =>
        obtain rfl : value = script.file ++ ":" ++ label := by
          simpa [Expr.newStrings, Expr.literal, Met.context] using hvalue
        exact .default hnone hlabel

end Call

/-- What is new in a replacement is written anew. -/
theorem requoted_of_mem_calls {setting : Setting} {f : Found} (hnested : script.root.Nested)
    (hf : find setting script = .ok f) {call : MigratedCall} (hmem : call ∈ f.calls) :
    ∃ m ∈ (walk script.source false script.root .empty).1, classifyMet setting script m = .ok call ∧
      ∃ func args keywords span subject,
        Script.lower script.source m.call = .call func args keywords span ∧
        CallSite.IsSubject args keywords subject ∧
        ∀ value ∈ call.classified.replacement.newStrings,
          Requoted setting script m subject keywords value := by
  obtain ⟨m, hm, hclassify⟩ := exists_met_of_mem_calls hf hmem
  refine ⟨m, hm, hclassify, ?_⟩
  obtain ⟨func, args, keywords, span, subject, source, env, hcall, hsubject, hsource, henv, hc⟩ :=
    CallSite.classify_eq_ok_iff.1 (classify_of_classifyMet hclassify)
  rw [CallSite.subject?_eq_some_iff] at hsubject
  refine ⟨func, args, keywords, span, subject, hcall, hsubject, fun value hvalue => ?_⟩
  obtain ⟨-, hargs, hkeywords⟩ := Expr.newStrings_call_eq_nil_iff.1
    ((congrArg Expr.newStrings hcall).symm.trans (Script.newStrings_lower script.source m.call))
  have hold : ∀ {v : Expr}, (v ∈ args ∨ ∃ kw ∈ keywords, kw.value = v) → v.newStrings = [] := by
    rintro v (hv | ⟨kw, hkw, rfl⟩)
    · exact hargs v hv
    · exact hkeywords kw hkw
  obtain ⟨method, entries, heq, hfinal⟩ := CallSite.finalCall_of_environment henv args
    (CallSite.receiver setting.config.loadHelper subject source
      (CallSite.entrypoint script.file subject keywords))
  rw [← hc, CallSite.assemble] at hvalue
  simp only [heq, Expr.methodCall, Expr.withSpan] at hvalue
  rcases Expr.mem_newStrings_call.1 hvalue with hvalue | ⟨e, he, -⟩ | ⟨kw, hkw, hvalue⟩
  · exact requoted_of_isReceiver hcall (hold hsubject.mem) hkeywords
      ((CallSite.receiver_eq_iff hsource).1 rfl) hvalue
  · simp at he
  · obtain ⟨⟨key, v⟩, hentry, rfl⟩ := List.mem_map.1 hkw
    rcases ((hfinal.mem_iff key v).1 hentry).1.cases with ⟨image, ⟨himage, -⟩, rfl⟩ | hv
    · obtain rfl : value = image := by simpa [Expr.newStrings, Expr.literal] using hvalue
      obtain ⟨d, hd, himage⟩ := (CallSite.image_of_environment henv value).1 himage
      exact requoted_of_describes hnested hm hcall hd himage
    · simp [hold hv] at hvalue

open Literal (quote decode? Evaluates Delimited)

/-- A string that is written as a literal is read back, is evaluated to, and stands on one line in double
    quotes, with a backslash in front of each one between them; no other string is written like it. A
    literal of a script that is read as the string evaluates to it if there is no carriage return in the
    literal, and never otherwise. And if the string is written anew in the replacement of a call, it is
    the default entrypoint, or the string of a literal in the script, of two that are joined or of the
    image of a block. -/
theorem requoted_strings (value : String) :
    (decode? (quote value) = some value ∧ Evaluates (quote value).toList value.toList ∧
      ∃ l : Delimited, l.text = (quote value).toList ∧ l.marker = [] ∧ l.delimiter = ['"'] ∧
        (∀ p ∈ l.pieces, p.text ≠ ['"']) ∧ '\n' ∉ l.text ∧ '\r' ∉ l.text) ∧
    (∀ value', quote value' = quote value → value' = value) ∧
    (∀ (file : String) (source : Text) (script : Script), Script.read file source = .ok script →
      ∀ x ∈ script.root.nodes, x.kind = .string → decode? (x.text script.source) = some value →
        (Evaluates (x.text script.source).toList value.toList ↔ '\r' ∉ (x.text script.source).toList)) ∧
    ∀ (setting : Setting) (file : String) (source : Text) (script : Script) (f : Found),
      Script.read file source = .ok script → find setting script = .ok f → ∀ call ∈ f.calls,
        ∃ m ∈ (walk script.source false script.root .empty).1, classifyMet setting script m = .ok call ∧
        ∃ func args keywords span subject,
          Script.lower script.source m.call = .call func args keywords span ∧
          CallSite.IsSubject args keywords subject ∧
          (value ∈ call.classified.replacement.newStrings →
            Requoted setting script m subject keywords value) := by
  refine ⟨⟨Literal.decode_quote value, ?_, ?_⟩, fun value' h => ?_, ?_, ?_⟩
  · rw [quote, String.toList_ofList]
    exact Literal.evaluates_quoteText value.toList
  · obtain ⟨l, htext, hmarker, hdelimiter, hquote, hline, hreturn, -⟩ :=
      Literal.exists_delimited_quoteText value.toList
    exact ⟨l, by rw [htext, quote, String.toList_ofList], hmarker, hdelimiter, hquote, hline, hreturn⟩
  · have hread := Literal.decode_quote value'
    rw [h, Literal.decode_quote] at hread
    exact (Option.some.inj hread).symm
  · intro file source script hread x hx hkind hvalue
    obtain ⟨hparse, rfl, -⟩ := parse_of_read hread
    exact Syntax.evaluates_iff_of_string hparse hx hkind hvalue
  · intro setting file source script f hread hf call hcall
    obtain ⟨m, hm, hclassify, func, args, keywords, span, subject, hlower, hsubject, hall⟩ :=
      requoted_of_mem_calls (Syntax.nested_of_parse (parse_of_read hread).1) hf hcall
    exact ⟨m, hm, hclassify, func, args, keywords, span, subject, hlower, hsubject, hall value⟩

/-- A catalog with a block that code can be fetched from. -/
def storedSetting : Setting :=
  ⟨(Catalog.empty.insert "s3/a" []).resolver, .standard⟩

/-- A path with a backslash in a raw literal, which is joined with the entrypoint. -/
theorem requoted_strings_joined : ∃ script f, Script.read "flow.py"
      "Deployment.build_from_flow(f, storage='s3/a', path=r'a\\b', entrypoint='c.py:f')\n".toList =
        .ok script ∧
    find storedSetting script = .ok f ∧ f.calls.map (fun call => call.classified.replacementText) =
      ["f.from_source(source=Block.load(\"s3/a\"), entrypoint=\"a\\\\b/c.py:f\").serve()"] ∧
    ∀ call ∈ f.calls, ∃ m subject keywords, call.classified.replacement.newStrings =
      ["s3/a", "a\\b/c.py:f"] ∧ Requoted storedSetting script m subject keywords "a\\b/c.py:f" := by
  have hrun : ((Script.read "flow.py"
      "Deployment.build_from_flow(f, storage='s3/a', path=r'a\\b', entrypoint='c.py:f')\n".toList).bind
        fun s => (find storedSetting s).map fun f => f.calls.map fun call =>
          (call.classified.replacementText, call.classified.replacement.newStrings)) =
      .ok [("f.from_source(source=Block.load(\"s3/a\"), entrypoint=\"a\\\\b/c.py:f\").serve()",
        ["s3/a", "a\\b/c.py:f"])] := by
    decide +kernel
  obtain ⟨script, f, hread, hfind, hcalls⟩ := exists_of_run hrun
  have htexts := congrArg (List.map Prod.fst) hcalls
  rw [List.map_map] at htexts
  refine ⟨script, f, hread, hfind, htexts, fun call hcall => ?_⟩
  have hnew : call.classified.replacement.newStrings = ["s3/a", "a\\b/c.py:f"] := by
    have hmem := List.mem_map_of_mem (f := fun call : MigratedCall =>
      (call.classified.replacementText, call.classified.replacement.newStrings)) hcall
    rw [hcalls, List.mem_singleton] at hmem
    exact congrArg Prod.snd hmem
  obtain ⟨m, -, -, -, -, keywords, -, subject, -, -, hrequoted⟩ :=
    (requoted_strings "a\\b/c.py:f").2.2.2 storedSetting _ _ script f hread hfind call hcall
  exact ⟨m, subject, keywords, hnew, hrequoted (by simp [hnew])⟩

/-- A path over two lines: with a line feed between them the literal evaluates to it, and the entrypoint
    that is written anew has a carriage return there as well. -/
theorem requoted_line_end : ∃ script f, Script.read "my_flows.py"
      ("Deployment.build_from_flow(f, storage=s, path=\"\"\"a\r\nb\"\"\", " ++
        "entrypoint=\"c.py:f\")\n").toList = .ok script ∧
    find ⟨.offline, .standard⟩ script = .ok f ∧
    f.calls.map (fun call => call.classified.replacementText) =
      ["f.from_source(source=s, entrypoint=" ++ quote "a\r\nb/c.py:f" ++ ").serve()"] ∧
    Evaluates (quote "a\r\nb/c.py:f").toList "a\r\nb/c.py:f".toList ∧
    Evaluates "\"\"\"a\r\nb\"\"\"".toList "a\nb".toList ∧
    ¬ Evaluates "\"\"\"a\r\nb\"\"\"".toList "a\r\nb".toList := by
  have hrun : ((Script.read "my_flows.py"
      ("Deployment.build_from_flow(f, storage=s, path=\"\"\"a\r\nb\"\"\", " ++
        "entrypoint=\"c.py:f\")\n").toList).bind fun s =>
          (find ⟨.offline, .standard⟩ s).map fun f =>
            f.calls.map fun call => call.classified.replacementText) =
      .ok ["f.from_source(source=s, entrypoint=" ++ quote "a\r\nb/c.py:f" ++ ").serve()"] := by
    decide +kernel
  obtain ⟨script, f, hread, hfind, htexts⟩ := exists_of_run hrun
  refine ⟨script, f, hread, hfind, htexts, ?_, ?_, fun h => ?_⟩
  · rw [quote, String.toList_ofList]
    exact Literal.evaluates_quoteText _
  · let l : Delimited := ⟨[], ['"', '"', '"'], [.plain 'a', .plain '\n', .plain 'b'], by decide, by decide⟩
    exact .plain l (by decide) (by decide)
      (.plain (by decide) (.plain (by decide) (.plain (by decide) .nil)))
  · exact absurd h.decodeText?_eq (by decide)

end Migration

end Redeploy

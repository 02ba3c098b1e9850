import Stencil.CommandLine.Reply

/-! # What the command line replies

A job goes through its stages in order. The first stage that fails decides the reply, and then there is
no output; if none does, the output is what the library gives for the same text, variables and options.
-/
namespace Stencil

namespace Outcome
variable {o : Outcome α} {f : α → Outcome β} {a : α} {failure : Failure}

theorem result_andThen_of_ok (h : o.result = .ok a) : (o.andThen f).result = (f a).result := by
  simp only [andThen,h]

theorem result_andThen_of_error (h : o.result = .error failure) :
    (o.andThen f).result = .error failure := by
  simp only [andThen,h]

end Outcome

namespace CommandLine
variable {s : Surroundings}

inductive Stage where
  | options
  | source
  | vars
  | reading
  | evaluation
  deriving DecidableEq, Repr

/-- What becomes of a text under its variables, with `evaluate` for the library, which begins with
`read`: the first stage that fails and its failure, or the result. -/
inductive Processes (s : Surroundings) (source : Text) (vars : Option Text) (read : Text → Outcome α)
    (evaluate : Mapping → Text → Outcome β) : Except (Stage × Failure) β → Prop where
  | source {failure : Failure} (h : sourceText s source = .error failure) :
    Processes s source vars read evaluate (.error (.source,failure))
  | vars {t : Text} {failure : Failure} (hsource : sourceText s source = .ok t)
    (h : variablesOf s vars = .error failure) :
    Processes s source vars read evaluate (.error (.vars,failure))
  | reading {t : Text} {m : Mapping} {failure : Failure} (hsource : sourceText s source = .ok t)
    (hvars : variablesOf s vars = .ok m) (h : (read t).result = .error failure) :
    Processes s source vars read evaluate (.error (.reading,failure))
  | evaluation {t : Text} {m : Mapping} {a : α} {failure : Failure}
    (hsource : sourceText s source = .ok t) (hvars : variablesOf s vars = .ok m)
    (hread : (read t).result = .ok a) (h : (evaluate m t).result = .error failure) :
    Processes s source vars read evaluate (.error (.evaluation,failure))
  | done {t : Text} {m : Mapping} {b : β} (hsource : sourceText s source = .ok t)
    (hvars : variablesOf s vars = .ok m) (h : (evaluate m t).result = .ok b) :
    Processes s source vars read evaluate (.ok b)

/-- Why a depth limit on the command line is refused. -/
inductive Depth.Refused : Depth → Failure → Prop where
  | notPositive {n : Int} (h : n < 1) :
    Depth.Refused (.number n) (.ofSetting ⟨.notADepth (.int n),["max_depth".toList]⟩)
  | missing : Depth.Refused .missing (.broken .missingDepth)

/-- The switches of the job override the options in the file, each of them its own, and nothing else. -/
structure RenderJob.Overrides (job : RenderJob) (file options : Options) : Prop where
  trimEndLine : options.trimEndLine = if job.keepLineEnds then false else file.trimEndLine
  squash : options.squash = job.squash.getD file.squash
  maxDepth : (job.maxDepth = none ∧ options.maxDepth = file.maxDepth) ∨
    (1 ≤ options.maxDepth ∧ job.maxDepth = some (.number options.maxDepth))

/-- What a rendering comes to. -/
inductive RenderJob.ComesTo (job : RenderJob) (s : Surroundings) :
    Except (Stage × Failure) Text → Prop where
  | config {failure : Failure}
    (h : Options.loadNamed s.files s.read (path? job.config) s.configFile = .error failure) :
    ComesTo job s (.error (.options,failure))
  | depth {file : Options} {depth : Depth} {failure : Failure}
    (hfile : Options.loadNamed s.files s.read (path? job.config) s.configFile = .ok file)
    (hdepth : job.maxDepth = some depth) (h : depth.Refused failure) :
    ComesTo job s (.error (.options,failure))
  | process {file options : Options} {result : Except (Stage × Failure) Text}
    (hfile : Options.loadNamed s.files s.read (path? job.config) s.configFile = .ok file)
    (hoptions : job.Overrides file options)
    (h : Processes s job.source job.vars (Template.read s.ceiling options.maxDepth)
      (Template.render s.ceiling .standard options) result) :
    ComesTo job s result

/-- What a check comes to. -/
def CheckJob.ComesTo (job : CheckJob) (s : Surroundings) (result : Except (Stage × Failure) Bool) :
    Prop :=
  Processes s job.source job.vars (Template.readCondition s.ceiling 100)
    (Template.check s.ceiling .standard {}) result

section Processes
variable {source : Text} {vars : Option Text} {read : Text → Outcome α}
variable {evaluate : Mapping → Text → Outcome β} {result result' : Except (Stage × Failure) β}

/-- What cannot be read cannot be evaluated. -/
def BeginsWith (evaluate : Mapping → Text → Outcome β) (read : Text → Outcome α) : Prop :=
  ∀ ⦃m t failure⦄, (read t).result = .error failure → (evaluate m t).result = .error failure

theorem Processes.unique (hbegins : BeginsWith evaluate read)
    (h : Processes s source vars read evaluate result)
    (h' : Processes s source vars read evaluate result') : result = result' := by
  -- the constructors exclude each other at once but for reading and the result of the library
  have hrefused {m t failure b} (hread : (read t).result = .error failure)
      (h : (evaluate m t).result = .ok b) : False := by
    cases (hbegins hread).symm.trans h
  cases h <;> cases h' <;> grind

theorem Processes.result_eq (hbegins : BeginsWith evaluate read)
    (h : Processes s source vars read evaluate result) (f : β → Answer) :
    ((Outcome.ofExcept (sourceText s source)).andThen fun t =>
      (Outcome.ofExcept (variablesOf s vars)).andThen fun m => (evaluate m t).map f).result =
      (result.mapError Prod.snd).map f := by
  cases h with
  | source h => exact Outcome.result_andThen_of_error h
  | vars hsource h =>
    rw [Outcome.result_andThen_of_ok hsource]
    exact Outcome.result_andThen_of_error h
  | reading hsource hvars h =>
    rw [Outcome.result_andThen_of_ok hsource,Outcome.result_andThen_of_ok hvars]
    exact congrArg (Except.map f) (hbegins h)
  | evaluation hsource hvars _ h =>
    rw [Outcome.result_andThen_of_ok hsource,Outcome.result_andThen_of_ok hvars]
    exact congrArg (Except.map f) h
  | done hsource hvars h =>
    rw [Outcome.result_andThen_of_ok hsource,Outcome.result_andThen_of_ok hvars]
    exact congrArg (Except.map f) h

end Processes

theorem render_beginsWith (ceiling : Nat) (options : Options) :
    BeginsWith (Template.render ceiling .standard options) (Template.read ceiling options.maxDepth) :=
  fun _ _ _ h => Outcome.result_andThen_of_error h

theorem check_beginsWith (ceiling : Nat) :
    BeginsWith (Template.check ceiling .standard {}) (Template.readCondition ceiling 100) :=
  fun _ _ _ h => Outcome.result_andThen_of_error (Outcome.result_andThen_of_error h)

theorem depthLimit?_of_refused {depth : Depth} {failure : Failure} (h : depth.Refused failure) :
    depthLimit? (some depth) = .error failure := by
  cases h with
  | @notPositive n hn =>
    match n,hn with
    | .ofNat 0,_ => rfl
    | .negSucc _,_ => rfl
  | missing => rfl

namespace RenderJob
variable {job : RenderJob} {file options options' : Options} {failure : Failure}

theorem options_of_config
    (h : Options.loadNamed s.files s.read (path? job.config) s.configFile = .error failure) :
    job.options s = .error failure := by
  rw [RenderJob.options,h]
  rfl

theorem options_of_depth {depth : Depth}
    (hfile : Options.loadNamed s.files s.read (path? job.config) s.configFile = .ok file)
    (hdepth : job.maxDepth = some depth) (h : depth.Refused failure) :
    job.options s = .error failure := by
  rw [RenderJob.options,hfile,hdepth,depthLimit?_of_refused h]
  rfl

theorem options_of_overrides
    (hfile : Options.loadNamed s.files s.read (path? job.config) s.configFile = .ok file)
    (h : job.Overrides file options) : job.options s = .ok options := by
  obtain ⟨htrim,hsquash,hdepth⟩ := h
  have htrim' : (file.trimEndLine && !job.keepLineEnds) = options.trimEndLine := by
    rw [htrim]
    cases job.keepLineEnds <;> simp
  have hlimit : ∃ limit, depthLimit? job.maxDepth = .ok limit ∧
      limit.getD file.maxDepth = options.maxDepth := by
    obtain ⟨hnone,hsame⟩ | ⟨hpos,hsome⟩ := hdepth
    · exact ⟨none,by rw [hnone]; rfl,hsame.symm⟩
    · obtain ⟨n,hn⟩ := Nat.exists_eq_add_of_le' hpos
      exact ⟨some options.maxDepth,by rw [hsome,hn]; rfl,rfl⟩
  obtain ⟨limit,hlimit,hmax⟩ := hlimit
  simp only [RenderJob.options,hfile,hlimit]
  change Except.ok _ = _
  rw [htrim',← hsquash,hmax]

variable {result result' : Except (Stage × Failure) Text}

theorem ComesTo.options_or_process (h : job.ComesTo s result) :
    (∃ failure, job.options s = .error failure ∧ result = .error (.options,failure)) ∨
      ∃ options, job.options s = .ok options ∧
        Processes s job.source job.vars (Template.read s.ceiling options.maxDepth)
          (Template.render s.ceiling .standard options) result := by
  cases h with
  | config h => exact Or.inl ⟨_,options_of_config h,rfl⟩
  | depth hfile hdepth h => exact Or.inl ⟨_,options_of_depth hfile hdepth h,rfl⟩
  | process hfile hoptions h => exact Or.inr ⟨_,options_of_overrides hfile hoptions,h⟩

theorem ComesTo.unique (h : job.ComesTo s result) (h' : job.ComesTo s result') : result = result' := by
  obtain ⟨failure,hoptions,rfl⟩ | ⟨options,hoptions,hprocess⟩ := h.options_or_process
  · obtain ⟨failure',hoptions',rfl⟩ | ⟨options,hoptions',_⟩ := h'.options_or_process
    · obtain rfl := Except.error.inj (hoptions.symm.trans hoptions')
      rfl
    · cases hoptions.symm.trans hoptions'
  · obtain ⟨failure',hoptions',rfl⟩ | ⟨options',hoptions',hprocess'⟩ := h'.options_or_process
    · cases hoptions.symm.trans hoptions'
    · obtain rfl := Except.ok.inj (hoptions.symm.trans hoptions')
      exact hprocess.unique (render_beginsWith s.ceiling options) hprocess'

theorem ComesTo.result_eq (h : job.ComesTo s result) :
    (job.outcome s).result = (result.mapError Prod.snd).map (⟨·,0⟩) := by
  obtain ⟨failure,hoptions,rfl⟩ | ⟨options,hoptions,hprocess⟩ := h.options_or_process
  · exact Outcome.result_andThen_of_error hoptions
  · rw [RenderJob.outcome,Outcome.result_andThen_of_ok hoptions]
    exact hprocess.result_eq (render_beginsWith s.ceiling options) _

end RenderJob

/-- What the program answers if a check comes to `holds`. -/
def CheckJob.answer (holds : Bool) : Answer :=
  if holds then ⟨"true\n".toList,0⟩ else ⟨"false\n".toList,1⟩

theorem CheckJob.ComesTo.result_eq {job : CheckJob} {result : Except (Stage × Failure) Bool}
    (h : job.ComesTo s result) :
    (job.outcome s).result = (result.mapError Prod.snd).map CheckJob.answer :=
  Processes.result_eq (check_beginsWith s.ceiling) h CheckJob.answer

/-- The reply is about `result`: the answer to it, or no output and, behind the log, the message of the
failure, with a newline for whatever blanks there are at its end. -/
def Reply.IsAbout (reply : Reply) (answer : α → Answer) : Except (Stage × Failure) α → Prop
  | .ok a => reply.code = (answer a).code ∧ reply.output = (answer a).output
  | .error (_,failure) => reply.code = 2 ∧ reply.output = [] ∧
    ∃ log, reply.errors = log ++ (failure.message.trimEnd ++ ['\n'])

variable {arguments : List Text} {invocation : Invocation} {reply : Reply}

section Result
variable {result : Except (Stage × Failure) α} {answer : α → Answer} {o : Outcome Answer} {least : Level}

theorem Reply.IsAbout.code (h : reply.IsAbout answer result) :
    reply.code = 2 ∨ ∃ a, reply.code = (answer a).code := by
  rcases result with ⟨stage,failure⟩ | a
  · exact Or.inl h.1
  · exact Or.inr ⟨a,h.1⟩

end Result

end CommandLine

end Stencil

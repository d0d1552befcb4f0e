import Mathlib.Data.List.Forall2

namespace Runs

variable {σ α β σ' α' β' : Type*}

variable {step : σ → α → Option (σ × β)} {step' : σ' → α' → Option (σ' × β')}
  {states : σ → σ' → Prop} {inputs : α → α' → Prop} {outs : α → β → β' → Prop}

end Runs

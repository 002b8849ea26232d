import LibLitertLm.Bridge.Registry
import LibLitertLm.Tool.SymbolContract
import LibLitertLm.Server.Listeners
import LibLitertLm.Server.Responses
import LibLitertLm.Worker.Atomicity
import LibLitertLm.Worker.Admission
import LibLitertLm.Worker.Isolation
import LibLitertLm.Worker.Narrowing
import LibLitertLm.Worker.Benchmarks
import LibLitertLm.Worker.Reporting
import LibLitertLm.Tool.Evaluation
import LibLitertLm.Tool.Workspace
import LibLitertLm.Tool.BuildIdentity
import LibLitertLm.Tool.Bundle
import LibLitertLm.Types.Normalization
import LibLitertLm.Bridge.InputTokens
import LibLitertLm.Handles.Disposal
import LibLitertLm.Backend.Settlement
import LibLitertLm.Backend.Lossless
import LibLitertLm.Backend.Window
import LibLitertLm.Backend.Grants
import LibLitertLm.Backend.Progress

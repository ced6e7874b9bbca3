import Interaction.Catalog.Basic

/-!
This module contains the protocols of the reference pipeline. Payload types are tags only; `None`
marks a message without content.
-/

namespace Interaction

namespace Builtin

open Interaction.Language (input output)

def nodeWrapper : Protocol where
  description := "Basic interaction protocol for nodes spoken by the node wrapper."
  channels := {
    inputs := .ofList [
      ("describe_node", "None"), ("describe_config", "None"), ("set_config", "Any"),
      ("get_state", "None")]
    outputs := .ofList [
      ("node_config_state", "Any"), ("node_description", "Any"), ("node_state", "Any"),
      ("logs", "Any"), ("set_config_ack", "None")] }
  language := .zeroOrMore <| .either [
    .sequence [input "describe_node", output "node_description"],
    .sequence [input "describe_config", output "node_config_state"],
    .sequence [input "set_config", output "set_config_ack"]]

def agent : Protocol where
  description := "Generic protocol for an agent that receives \"observations\" and responds
with \"commands\".

\"episode_start\" marks the beginning of an episode."
  channels := {
    inputs := .ofList [
      ("observations", "Any"), ("seed", "int"), ("get_commands", "GetCommands"),
      ("episode_start", "EpisodeStart")]
    outputs := .ofList [("commands", "Any")] }
  language := .sequence [
    .optional (input "seed"),
    .zeroOrMore <| .sequence [
      input "episode_start",
      .zeroOrMore <| .either [
        input "observations",
        .sequence [input "get_commands", output "commands"]]]]

def agentJpgPwm : Protocol where
  description := "Receives a DistortedImage, to which it replies with PWMCommands."
  channels := {
    inputs := .ofList [("camera_image", "JPGImage"), ("episode_start", "EpisodeStart")]
    outputs := .ofList [("pwm_commands", "PWMCommands")] }
  language := .zeroOrMore <| .sequence [
    input "episode_start",
    .zeroOrMore <| .sequence [input "camera_image", output "pwm_commands"]]

def imageFilter : Protocol where
  description := "An image filter. Takes an image, returns an image."
  channels := {
    inputs := .ofList [("image", "JPGImage"), ("episode_start", "EpisodeStart")]
    outputs := .ofList [("image", "JPGImage"), ("episode_start", "EpisodeStart")] }
  language := .zeroOrMore <| .sequence [
    input "episode_start",
    output "episode_start",
    .zeroOrMore <| .sequence [input "image", output "image"]]

def imageSource : Protocol where
  description := "An abstraction over logs.

It emits a series of EpisodeStart followed by a set of images."
  channels := {
    inputs := .ofList [("next_image", "None"), ("next_episode", "None")]
    outputs := .ofList [
      ("image", "JPGImage"), ("episode_start", "EpisodeStart"), ("no_more_images", "None"),
      ("no_more_episodes", "None")] }
  language := .zeroOrMore <| .sequence [
    input "next_episode",
    .either [
      output "no_more_episodes",
      .sequence [
        output "episode_start",
        .zeroOrMore <| .sequence [
          input "next_image",
          .either [output "image", output "no_more_images"]]]]]

def scenarioMaker : Protocol where
  description := "A \"scenario maker\" is an object that is able to create robot simulation scenarios.

Each scenario contains the definition of a map and other environmental
conditions, and the pose of the \"playing\" robot.

A scenario maker can be random. In that case it must give the same sequence
for the same values of the seed."
  channels := {
    inputs := .ofList [("seed", "int"), ("next_scenario", "None")]
    outputs := .ofList [("finished", "None"), ("scenario", "Scenario")] }
  language := .sequence [
    .optional (input "seed"),
    .zeroOrMore <| .sequence [
      input "next_scenario",
      .either [output "finished", output "scenario"]]]

def simulator : Protocol where
  description := "Interface to be implemented by a simulator.

`clear` resets the simulation data; map and robots must be sent again.
`set_map` sets the map to use.
`spawn_robot` adds a robot of the given name to the simulation.
`step` advances the simulation until the given timestamp.
`set_robot_commands` sets the commands of a robot from a timestamp on.
`get_robot_observations` asks for the observations of a robot.
`dump_state` asks for a dump of the simulation state.
`seed` sets the seed of the random process."
  channels := {
    inputs := .ofList [
      ("seed", "int"), ("clear", "None"), ("set_map", "SetMap"), ("spawn_robot", "SpawnRobot"),
      ("get_robot_interface_description", "RobotName"), ("get_robot_performance", "RobotName"),
      ("get_sim_state", "None"), ("episode_start", "EpisodeStart"), ("step", "Step"),
      ("set_robot_commands", "SetRobotCommands"),
      ("get_robot_observations", "GetRobotObservations"), ("get_robot_state", "GetRobotState"),
      ("get_ui_image", "None"), ("dump_state", "DumpState")]
    outputs := .ofList [
      ("robot_observations", "RobotObservations"), ("robot_state", "RobotState"),
      ("robot_performance", "RobotPerformance"),
      ("robot_interface_description", "RobotInterfaceDescription"),
      ("sim_state", "SimulationState"), ("state_dump", "StateDump"), ("ui_image", "JPGImage")] }
  language := .sequence [
    .optional (input "seed"),
    .zeroOrMore <| .sequence [
      input "clear",
      input "set_map",
      .zeroOrMore (input "spawn_robot"),
      .zeroOrMore <| .sequence [
        input "get_robot_interface_description", output "robot_interface_description"],
      input "episode_start",
      .zeroOrMore <| .either [
        input "step",
        input "set_robot_commands",
        .sequence [input "get_robot_observations", output "robot_observations"],
        .sequence [input "get_robot_performance", output "robot_performance"],
        .sequence [input "get_robot_state", output "robot_state"],
        .sequence [input "get_sim_state", output "sim_state"],
        .sequence [input "dump_state", output "state_dump"],
        .sequence [input "get_ui_image", output "ui_image"]]]]

def scorer : Protocol where
  description := "Protocol for scorer"
  channels := {
    inputs := .ofList [
      ("set_map", "SetMap"), ("episode_start", "EpisodeStart"), ("set_robot_state", "RobotState"),
      ("set_sim_state", "SimulationState"), ("get_robot_performance", "RobotName")]
    outputs := .ofList [("robot_performance", "RobotPerformance")] }
  language := .sequence [
    input "set_map",
    .zeroOrMore <| .sequence [
      input "episode_start",
      .zeroOrMore <| .either [
        input "set_sim_state",
        input "set_robot_state",
        .sequence [input "get_robot_performance", output "robot_performance"]]]]

def protocols : List (String × Protocol) := [
  ("node_wrapper", nodeWrapper), ("agent", agent), ("agent_jpg_pwm", agentJpgPwm),
  ("image_filter", imageFilter), ("image_source", imageSource),
  ("scenario_maker", scenarioMaker), ("simulator", simulator), ("scorer", scorer)]

/-- The file `builtin.prot`, from which the protocols of this module are read. -/
def text : String := "// Protocols spoken by the reference pipeline nodes.
// Payload types are tags only; `None` marks a message without content.

protocol node_wrapper \x7b
    description \"Basic interaction protocol for nodes spoken by the node wrapper.\";

    in describe_node: None;
    in describe_config: None;
    in set_config: Any;
    in get_state: None;

    out node_config_state: Any;
    out node_description: Any;
    out node_state: Any;
    out logs: Any;
    out set_config_ack: None;

    language \x7b
        (
            (in:describe_node   ; out:node_description) |
            (in:describe_config ; out:node_config_state) |
            (in:set_config      ; out:set_config_ack)
        )*
    \x7d
\x7d

protocol agent \x7b
    description \"
Generic protocol for an agent that receives \\\"observations\\\" and responds
with \\\"commands\\\".

\\\"episode_start\\\" marks the beginning of an episode.
\";

    in observations: Any;
    in seed: int;
    in get_commands: GetCommands;
    in episode_start: EpisodeStart;

    out commands: Any;

    language \x7b
        in:seed? ;
        (
            in:episode_start ;
            (in:observations | (in:get_commands ; out:commands))*
        )*
    \x7d
\x7d

protocol agent_jpg_pwm \x7b
    description \"Receives a DistortedImage, to which it replies with PWMCommands.\";

    in camera_image: JPGImage;
    in episode_start: EpisodeStart;

    out pwm_commands: PWMCommands;

    language \x7b
        (in:episode_start ; (in:camera_image ; out:pwm_commands)*)*
    \x7d
\x7d

protocol image_filter \x7b
    description \"An image filter. Takes an image, returns an image.\";

    in image: JPGImage;
    in episode_start: EpisodeStart;

    out image: JPGImage;
    out episode_start: EpisodeStart;

    language \x7b
        (in:episode_start ; out:episode_start ; (in:image ; out:image)*)*
    \x7d
\x7d

protocol image_source \x7b
    description \"
An abstraction over logs.

It emits a series of EpisodeStart followed by a set of images.
\";

    in next_image: None;
    in next_episode: None;

    out image: JPGImage;
    out episode_start: EpisodeStart;
    out no_more_images: None;
    out no_more_episodes: None;

    language \x7b
        (
            in:next_episode ; (
                out:no_more_episodes |
                (out:episode_start ;
                    (in:next_image ; (out:image | out:no_more_images))*)
            )
        )*
    \x7d
\x7d

protocol scenario_maker \x7b
    description \"
A \\\"scenario maker\\\" is an object that is able to create robot simulation scenarios.

Each scenario contains the definition of a map and other environmental
conditions, and the pose of the \\\"playing\\\" robot.

A scenario maker can be random. In that case it must give the same sequence
for the same values of the seed.
\";

    in seed: int;
    in next_scenario: None;

    out finished: None;
    out scenario: Scenario;

    language \x7b
        in:seed? ;
        (in:next_scenario ; (out:finished | out:scenario))*
    \x7d
\x7d

protocol simulator \x7b
    description \"
Interface to be implemented by a simulator.

`clear` resets the simulation data; map and robots must be sent again.
`set_map` sets the map to use.
`spawn_robot` adds a robot of the given name to the simulation.
`step` advances the simulation until the given timestamp.
`set_robot_commands` sets the commands of a robot from a timestamp on.
`get_robot_observations` asks for the observations of a robot.
`dump_state` asks for a dump of the simulation state.
`seed` sets the seed of the random process.
\";

    in seed: int;
    in clear: None;
    in set_map: SetMap;
    in spawn_robot: SpawnRobot;
    in get_robot_interface_description: RobotName;
    in get_robot_performance: RobotName;
    in get_sim_state: None;
    in episode_start: EpisodeStart;
    in step: Step;
    in set_robot_commands: SetRobotCommands;
    in get_robot_observations: GetRobotObservations;
    in get_robot_state: GetRobotState;
    in get_ui_image: None;
    in dump_state: DumpState;

    out robot_observations: RobotObservations;
    out robot_state: RobotState;
    out robot_performance: RobotPerformance;
    out robot_interface_description: RobotInterfaceDescription;
    out sim_state: SimulationState;
    out state_dump: StateDump;
    out ui_image: JPGImage;

    language \x7b
        in:seed? ;
        (
            in:clear ;
            in:set_map ;
            (in:spawn_robot)* ;
            (in:get_robot_interface_description ; out:robot_interface_description)* ;
            in:episode_start ;
            (
                in:step |
                in:set_robot_commands |
                (in:get_robot_observations ; out:robot_observations) |
                (in:get_robot_performance ; out:robot_performance) |
                (in:get_robot_state ; out:robot_state) |
                (in:get_sim_state ; out:sim_state) |
                (in:dump_state ; out:state_dump) |
                (in:get_ui_image ; out:ui_image)
            )*
        )*
    \x7d
\x7d

protocol scorer \x7b
    description \"Protocol for scorer\";

    in set_map: SetMap;
    in episode_start: EpisodeStart;
    in set_robot_state: RobotState;
    in set_sim_state: SimulationState;
    in get_robot_performance: RobotName;

    out robot_performance: RobotPerformance;

    language \x7b
        in:set_map ;
        (
            in:episode_start ;
            (
                in:set_sim_state |
                in:set_robot_state |
                (in:get_robot_performance ; out:robot_performance)
            )*
        )*
    \x7d
\x7d
"

end Builtin

def Catalog.builtin : Catalog where
  protocols := .ofList Builtin.protocols

end Interaction
